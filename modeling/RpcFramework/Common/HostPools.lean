import Mathlib.Data.List.AList
import RpcFramework.Common.ConnectionPool
import RpcFramework.Lib.TextStream

/-!
# The pools of all hosts

A `ConnectionPool` has a pool for every address it was asked for, under a key that is made of the
host and the port.  `acquire` looks its pool up, or makes it, under `pools_mutex_`, and goes on
under the mutex of the pool; `release` and the cleanup look it up.  `getStats` holds
`pools_mutex_`, shared, while it adds up one pool after another, each under its own mutex: pools
change between one and the next, but no pool is made.

A connection is known by the pool it was made for and its number there.

## Main definitions

* `HostPools.makeKey` — the key of an address.
* `HostPools.State`, `HostPools.step` — the system `hostPools`.
* `HostPools.State.host` — what the system looks like from one address.

## Main results

* `HostPools.makeKey_inj` — addresses do not share pools.
* `HostPools.step_host` — a section at one address is none at the others.
* `hostPools_refine` — **each address has a connection pool to itself.**
* `hostPools_stats` — **the statistics add up**, though no moment in time has them.
-/

namespace AList

variable {α : Type*} {β : α → Type*} [DecidableEq α] {a : α} {s : AList β}

theorem keys_insert_perm (h : a ∈ s) (b : β a) : (s.insert a b).keys.Perm s.keys := by
  rw [keys_insert]
  exact (List.perm_cons_erase (mem_keys.mp h)).symm

theorem keys_insert_of_notMem (h : a ∉ s) (b : β a) : (s.insert a b).keys = a :: s.keys := by
  rw [keys_insert, List.erase_of_not_mem (mt mem_keys.mpr h)]

end AList

namespace HostPools

open ConnectionPool

def makeKey (host : Bytes) (port : ℤ) : Bytes := host ++ utf8 ":" ++ decimal port

structure Stats where
  hostsCount : ℕ := 0
  totalConnections : ℕ := 0
  activeConnections : ℤ := 0
  idleConnections : ℕ := 0
  deriving DecidableEq, Repr

/-- A call of `getStats`: the pools it has still to come to, and those it has counted. -/
structure Summing where
  rest : List Bytes
  counted : List Bytes := []
  stats : Stats

/-- Where a thread is in `acquire`, and with which pool. -/
inductive Thread where
  | outside
  /-- Before the mutex of the pool is locked. -/
  | entering (key : Bytes)
  | connecting (key : Bytes) (timeoutTime : ℤ)
  | waiting (key : Bytes) (timeoutTime : ℤ)

structure State where
  pools : AList (fun _ : Bytes => HostPool) := ∅
  threads : ℕ → Thread := fun _ => .outside
  /-- What was acquired from each pool and has not been released. -/
  held : Bytes → List ℕ := fun _ => []
  /-- The number of the next object of each pool. -/
  next : Bytes → ℕ := fun _ => 0
  /-- The calls of `getStats` that hold `pools_mutex_`. -/
  summing : List Summing := []
  /-- What the calls that have returned had counted, and returned. -/
  returned : List Summing := []

inductive Action where
  /-- `getOrCreateHostPool`, for an `acquire`. -/
  | enter (thread : ℕ) (host : Bytes) (port : ℤ)
  | acquire (thread : ℕ) (start now : ℤ) (valid : ℕ → Bool)
  | connected (thread : ℕ) (now : ℤ)
  | connectFailed (thread : ℕ) (now : ℤ)
  | release (host : Bytes) (port : ℤ) (c : ℕ) (now : ℤ) (valid : Bool)
  | cleanup (key : Bytes) (now : ℕ → ℤ)
  /-- `getStats` will come to the pools in this order, which is that of the hash table. -/
  | beginStats (order : List Bytes)
  /-- The call of this number counts its next pool. -/
  | addStats (call : ℕ)
  | endStats (call : ℕ)

namespace State

def setThread (s : State) (thread : ℕ) (place : Thread) : State :=
  { s with threads := Function.update s.threads thread place }

def setPool (s : State) (key : Bytes) (pool : HostPool) : State :=
  { s with pools := s.pools.insert key pool }

end State

/-- Without a connection a thread waits, or gives up. -/
def waitOrGiveUp (key : Bytes) (timeoutTime now : ℤ) : Thread :=
  if timeoutTime ≤ now then .outside else .waiting key timeoutTime

/-- The section of `acquire` that begins at the top of its loop. -/
def acquire (config : Config) (s : State) (thread : ℕ) (key : Bytes) (timeoutTime now : ℤ)
    (valid : ℕ → Bool) : Option State :=
  (s.pools.lookup key).map fun pool =>
    match pool.takeIdle now valid pool.idleConnections with
    | (pool, some c) =>
        { (s.setPool key pool).setThread thread .outside with
          held := Function.update s.held key (c :: s.held key) }
    | (pool, none) =>
        (s.setPool key pool).setThread thread
          (if pool.allConnections.length < config.maxConnectionsPerHost then
            .connecting key timeoutTime
          else waitOrGiveUp key timeoutTime now)

/-- One pool is counted. -/
def Summing.add (u : Summing) (key : Bytes) (rest : List Bytes) (pool : HostPool) : Summing where
  rest := rest
  counted := key :: u.counted
  stats :=
    { u.stats with
      totalConnections := u.stats.totalConnections + pool.allConnections.length
      activeConnections := u.stats.activeConnections + pool.activeCount
      idleConnections := u.stats.idleConnections + pool.idleConnections.length }

def step (config : Config) (s : State) : Action → Option State
  | .enter thread host port =>
      match s.threads thread with
      | .outside =>
          if makeKey host port ∈ s.pools then
            some (s.setThread thread (.entering (makeKey host port)))
          -- `pools_mutex_` is locked exclusively
          else if s.summing = [] then
            some ((s.setPool (makeKey host port) {}).setThread thread
              (.entering (makeKey host port)))
          else none
      | _ => none
  | .acquire thread start now valid =>
      match s.threads thread with
      | .entering key => acquire config s thread key (start + config.acquireTimeout) now valid
      | .waiting key timeoutTime => acquire config s thread key timeoutTime now valid
      | _ => none
  | .connected thread now =>
      match s.threads thread with
      | .connecting key _ =>
          (s.pools.lookup key).map fun pool =>
            { (s.setPool key (pool.insert (s.next key) now)).setThread thread .outside with
              held := Function.update s.held key (s.next key :: s.held key)
              next := Function.update s.next key (s.next key + 1) }
      | _ => none
  | .connectFailed thread now =>
      match s.threads thread with
      | .connecting key timeoutTime => some (s.setThread thread (waitOrGiveUp key timeoutTime now))
      | _ => none
  | .release host port c now valid =>
      if c ∈ s.held (makeKey host port) then
        let s' :=
          { s with
            held := Function.update s.held (makeKey host port)
              ((s.held (makeKey host port)).erase c) }
        some
          ((s.pools.lookup (makeKey host port)).elim s' fun pool =>
            s'.setPool (makeKey host port) (pool.release c now valid))
      else none
  | .cleanup key now =>
      some ((s.pools.lookup key).elim s fun pool => s.setPool key (pool.cleanup config now))
  | .beginStats order =>
      if order.Perm s.pools.keys then
        some
          { s with
            summing := s.summing ++
              [{ rest := order, stats := { hostsCount := s.pools.keys.length } }] }
      else none
  | .addStats call =>
      match s.summing[call]? with
      | some u =>
          match u.rest with
          | [] => none
          | key :: rest =>
              (s.pools.lookup key).map fun pool =>
                { s with summing := s.summing.set call (u.add key rest pool) }
      | none => none
  | .endStats call =>
      match s.summing[call]? with
      | some u =>
          if u.rest = [] then
            some { s with summing := s.summing.eraseIdx call, returned := u :: s.returned }
          else none
      | none => none

/-- What a thread looks like from the pool of the key. -/
def Thread.host (key : Bytes) : Thread → ConnectionPool.Thread
  | .outside | .entering _ => .outside
  | .connecting key' timeoutTime => if key' = key then .connecting timeoutTime else .outside
  | .waiting key' timeoutTime => if key' = key then .waiting timeoutTime else .outside

/-- The pool of the key, which is as good as empty before it is made, and what concerns it. -/
def State.host (s : State) (key : Bytes) : ConnectionPool.State where
  pool := (s.pools.lookup key).getD {}
  threads := Thread.host key ∘ s.threads
  held := s.held key
  next := s.next key

end HostPools

open ConnectionPool HostPools

/-- The pools of all hosts, from the construction on. -/
def hostPools (config : Config) : System HostPools.State HostPools.Action where
  init := {}
  step := HostPools.step config

namespace HostPools

/-! ### Keys -/

/-- **Addresses do not share pools**: the last colon of a key ends the host, whatever is in it. -/
theorem makeKey_inj {host host' : Bytes} {port port' : ℤ}
    (h : makeKey host port = makeKey host' port') : host = host' ∧ port = port' := by
  rw [makeKey, makeKey, List.append_assoc, List.append_assoc] at h
  exact append_decimal_inj (c := 0x3A) (by decide) (by decide) h

/-! ### What a section does to each address -/

/-- What is held was acquired from a pool there is. -/
def HeldFromPools (s : State) : Prop := ∀ key, s.held key ≠ [] → key ∈ s.pools

section Host

variable {config : Config} {s t : State} {key : Bytes}

theorem lookup_setPool_self (s : State) (key : Bytes) (pool : HostPool) :
    (s.setPool key pool).pools.lookup key = some pool :=
  AList.lookup_insert _

theorem lookup_setPool_of_ne {key' : Bytes} (h : key' ≠ key) (s : State) (pool : HostPool) :
    (s.setPool key pool).pools.lookup key' = s.pools.lookup key' :=
  AList.lookup_insert_ne h

/-- What is seen from an address is made of this. -/
theorem host_eq {u : ConnectionPool.State} (hpool : (t.pools.lookup key).getD {} = u.pool)
    (hthreads : Thread.host key ∘ t.threads = u.threads) (hheld : t.held key = u.held)
    (hnext : t.next key = u.next) : t.host key = u := by
  rw [State.host, hpool, hthreads, hheld, hnext]

/-- A thread that moves with another pool in its hands, seen from here. -/
theorem host_threads_of_eq {thread : ℕ} {place : Thread}
    (h : place.host key = (s.threads thread).host key) :
    Thread.host key ∘ Function.update s.threads thread place = Thread.host key ∘ s.threads := by
  rw [Function.comp_update, h]
  exact Function.update_eq_self _ _

theorem host_connecting_of_ne {key' : Bytes} (h : key' ≠ key) (timeoutTime : ℤ) :
    (Thread.connecting key' timeoutTime).host key = .outside :=
  if_neg h

theorem host_waiting_of_ne {key' : Bytes} (h : key' ≠ key) (timeoutTime : ℤ) :
    (Thread.waiting key' timeoutTime).host key = .outside :=
  if_neg h

theorem host_waitOrGiveUp (key : Bytes) (timeoutTime now : ℤ) :
    (waitOrGiveUp key timeoutTime now).host key = ConnectionPool.waitOrGiveUp timeoutTime now := by
  rw [waitOrGiveUp, ConnectionPool.waitOrGiveUp]
  split
  · rfl
  · exact if_pos rfl

theorem host_waitOrGiveUp_of_ne {key' : Bytes} (h : key' ≠ key) (timeoutTime now : ℤ) :
    (waitOrGiveUp key' timeoutTime now).host key = .outside := by
  rw [waitOrGiveUp]
  split
  · rfl
  · exact host_waiting_of_ne h _

/-- **A section of `acquire`**, seen from its own address and from another. -/
theorem host_acquire (key : Bytes) {thread : ℕ} {key' : Bytes} {timeoutTime now : ℤ}
    {valid : ℕ → Bool}
    (h : acquire config s thread key' timeoutTime now valid = some t)
    (hthread : key' ≠ key → (s.threads thread).host key = .outside) :
    (key' = key → t.host key =
        ConnectionPool.acquire config (s.host key) thread timeoutTime now valid) ∧
      (key' ≠ key → t.host key = s.host key) := by
  obtain ⟨pool, hpool, rfl⟩ := Option.map_eq_some_iff.mp h
  have hhost : (s.host key').pool = pool := by
    show (s.pools.lookup key').getD {} = pool
    rw [hpool]
    rfl
  cases htake : pool.takeIdle now valid pool.idleConnections with
  | mk pool' taken =>
    cases taken with
    | some c =>
      dsimp only
      constructor
      · rintro rfl
        rw [ConnectionPool.acquire, hhost, htake]
        refine host_eq ?_ (Function.comp_update _ _ _ _) (Function.update_self _ _ _) rfl
        exact congrArg (Option.getD · {}) (lookup_setPool_self s key' pool')
      · intro hne
        refine host_eq ?_ (host_threads_of_eq (hthread hne).symm)
          (Function.update_of_ne (Ne.symm hne) _ _) rfl
        exact congrArg (Option.getD · {}) (lookup_setPool_of_ne (Ne.symm hne) s pool')
    | none =>
      dsimp only
      constructor
      · rintro rfl
        rw [ConnectionPool.acquire, hhost, htake]
        refine host_eq ?_ ?_ rfl rfl
        · exact congrArg (Option.getD · {}) (lookup_setPool_self s key' pool')
        · refine (Function.comp_update _ _ _ _).trans (congrArg (Function.update _ thread) ?_)
          split
          · exact if_pos rfl
          · exact host_waitOrGiveUp key' timeoutTime now
      · intro hne
        refine host_eq ?_ (host_threads_of_eq ?_) rfl rfl
        · exact congrArg (Option.getD · {}) (lookup_setPool_of_ne (Ne.symm hne) s pool')
        · refine Eq.trans ?_ (hthread hne).symm
          split
          · exact host_connecting_of_ne hne _
          · exact host_waitOrGiveUp_of_ne hne _ _

/-- A section of a thread that has a connection to connect. -/
theorem host_connected {thread : ℕ} {key' : Bytes} {timeoutTime now : ℤ} {pool : HostPool}
    (hpool : s.pools.lookup key' = some pool)
    (hthread : s.threads thread = .connecting key' timeoutTime)
    (ht : t =
      { (s.setPool key' (pool.insert (s.next key') now)).setThread thread .outside with
        held := Function.update s.held key' (s.next key' :: s.held key')
        next := Function.update s.next key' (s.next key' + 1) }) :
    t.host key = s.host key ∨
      ConnectionPool.step config (s.host key) (.connected thread now) = some (t.host key) := by
  subst ht
  by_cases heq : key' = key
  · subst heq
    right
    have hplace : (s.host key').threads thread = .connecting timeoutTime := by
      show (s.threads thread).host key' = _
      rw [hthread]
      exact if_pos rfl
    have hhost : (s.host key').pool = pool := by
      show (s.pools.lookup key').getD {} = pool
      rw [hpool]
      rfl
    rw [ConnectionPool.step, hplace]
    refine congrArg some (host_eq ?_ (Function.comp_update _ _ _ _) (Function.update_self _ _ _)
      (Function.update_self _ _ _)).symm
    rw [hhost]
    exact congrArg (Option.getD · {}) (lookup_setPool_self s key' _)
  · left
    refine host_eq ?_ (host_threads_of_eq ?_) (Function.update_of_ne (Ne.symm heq) _ _)
      (Function.update_of_ne (Ne.symm heq) _ _)
    · exact congrArg (Option.getD · {}) (lookup_setPool_of_ne (Ne.symm heq) s _)
    · show ConnectionPool.Thread.outside = (s.threads thread).host key
      rw [hthread, host_connecting_of_ne heq]

/-- **A section at one address is none at the others.** -/
theorem step_host (hs : HeldFromPools s) {a : Action} (hstep : step config s a = some t)
    (key : Bytes) :
    t.host key = s.host key ∨
      ∃ b, ConnectionPool.step config (s.host key) b = some (t.host key) := by
  cases a with
  | enter thread host port =>
    left
    simp only [step] at hstep
    split at hstep
    · next hthread =>
      have hthreads : Thread.host key ∘
          Function.update s.threads thread (.entering (makeKey host port)) =
            Thread.host key ∘ s.threads :=
        host_threads_of_eq (by rw [hthread]; rfl)
      split at hstep
      · obtain rfl := Option.some.inj hstep
        exact host_eq rfl hthreads rfl rfl
      · next hnew =>
        obtain ⟨-, heq⟩ := Option.ite_none_right_eq_some.mp hstep
        obtain rfl := Option.some.inj heq
        refine host_eq ?_ hthreads rfl rfl
        -- a pool that has just been made is as good as none
        by_cases hkey : key = makeKey host port
        · subst hkey
          show ((s.setPool (makeKey host port) {}).pools.lookup _).getD {} = _
          rw [lookup_setPool_self, State.host, AList.lookup_eq_none.mpr hnew]
          rfl
        · exact congrArg (Option.getD · {}) (lookup_setPool_of_ne hkey s _)
    · cases hstep
  | acquire thread start now valid =>
    simp only [step] at hstep
    split at hstep
    · next key' hthread =>
      obtain ⟨hsame, hother⟩ := host_acquire key hstep fun _ => by rw [hthread]; rfl
      by_cases heq : key' = key
      · refine Or.inr ⟨.acquire thread start now valid, ?_⟩
        have hplace : (s.host key).threads thread = .outside := by
          show (s.threads thread).host key = _
          rw [hthread]
          rfl
        rw [ConnectionPool.step, hplace, hsame heq]
      · exact Or.inl (hother heq)
    · next key' timeoutTime hthread =>
      obtain ⟨hsame, hother⟩ := host_acquire key hstep fun hne => by
        rw [hthread]
        exact host_waiting_of_ne hne _
      by_cases heq : key' = key
      · refine Or.inr ⟨.acquire thread start now valid, ?_⟩
        have hplace : (s.host key).threads thread = .waiting timeoutTime := by
          show (s.threads thread).host key = _
          rw [hthread]
          exact if_pos heq
        rw [ConnectionPool.step, hplace, hsame heq]
      · exact Or.inl (hother heq)
    · cases hstep
  | connected thread now =>
    simp only [step] at hstep
    split at hstep
    · next key' timeoutTime hthread =>
      obtain ⟨pool, hpool, ht⟩ := Option.map_eq_some_iff.mp hstep
      exact (host_connected hpool hthread ht.symm).imp_right fun h => ⟨_, h⟩
    · cases hstep
  | connectFailed thread now =>
    simp only [step] at hstep
    split at hstep
    · next key' timeoutTime hthread =>
      obtain rfl := Option.some.inj hstep
      by_cases heq : key' = key
      · subst heq
        refine Or.inr ⟨.connectFailed thread now, ?_⟩
        have hplace : (s.host key').threads thread = .connecting timeoutTime := by
          show (s.threads thread).host key' = _
          rw [hthread]
          exact if_pos rfl
        rw [ConnectionPool.step, hplace]
        refine congrArg some (host_eq rfl ?_ rfl rfl).symm
        exact (Function.comp_update _ _ _ _).trans
          (congrArg (Function.update _ thread) (host_waitOrGiveUp key' timeoutTime now))
      · refine Or.inl (host_eq rfl (host_threads_of_eq ?_) rfl rfl)
        rw [hthread, host_connecting_of_ne heq, host_waitOrGiveUp_of_ne heq]
    · cases hstep
  | release host port c now valid =>
    simp only [step] at hstep
    obtain ⟨hheld, heq⟩ := Option.ite_none_right_eq_some.mp hstep
    obtain ⟨pool, hpool⟩ := Option.isSome_iff_exists.mp
      (AList.lookup_isSome.mpr (hs _ (List.ne_nil_of_mem hheld)))
    rw [hpool] at heq
    obtain rfl := Option.some.inj heq
    generalize makeKey host port = key' at hheld hpool ⊢
    by_cases heq : key' = key
    · subst heq
      refine Or.inr ⟨.release c now valid, ?_⟩
      rw [ConnectionPool.step, if_pos (show c ∈ (s.host key').held from hheld)]
      refine congrArg some (host_eq ?_ rfl (Function.update_self _ _ _) rfl).symm
      refine (congrArg (Option.getD · {}) (lookup_setPool_self _ key' _)).trans ?_
      show pool.release c now valid = ((s.pools.lookup key').getD {}).release c now valid
      rw [hpool]
      rfl
    · refine Or.inl (host_eq ?_ rfl (Function.update_of_ne (Ne.symm heq) _ _) rfl)
      exact congrArg (Option.getD · {}) (lookup_setPool_of_ne (Ne.symm heq) _ _)
  | cleanup key' now =>
    obtain rfl := Option.some.inj hstep
    cases hpool : s.pools.lookup key' with
    | none => exact Or.inl rfl
    | some pool =>
      by_cases heq : key' = key
      · subst heq
        refine Or.inr ⟨.cleanup now, ?_⟩
        rw [ConnectionPool.step]
        refine congrArg some (host_eq ?_ rfl rfl rfl).symm
        refine (congrArg (Option.getD · {}) (lookup_setPool_self s key' _)).trans ?_
        show pool.cleanup config now = ((s.pools.lookup key').getD {}).cleanup config now
        rw [hpool]
        rfl
      · refine Or.inl (host_eq ?_ rfl rfl rfl)
        exact congrArg (Option.getD · {}) (lookup_setPool_of_ne (Ne.symm heq) s _)
  | beginStats order =>
    obtain ⟨-, heq⟩ := Option.ite_none_right_eq_some.mp hstep
    obtain rfl := Option.some.inj heq
    exact Or.inl rfl
  | addStats call =>
    simp only [step] at hstep
    split at hstep
    · split at hstep
      · cases hstep
      · obtain ⟨pool, -, rfl⟩ := Option.map_eq_some_iff.mp hstep
        exact Or.inl rfl
    · cases hstep
  | endStats call =>
    simp only [step] at hstep
    split at hstep
    · obtain ⟨-, heq⟩ := Option.ite_none_right_eq_some.mp hstep
      obtain rfl := Option.some.inj heq
      exact Or.inl rfl
    · cases hstep

end Host

/-! ### What the statistics are made of -/

/-- A step of `getStats`. -/
def Action.counts : Action → Bool
  | .beginStats _ | .addStats _ | .endStats _ => true
  | .enter .. | .acquire .. | .connected .. | .connectFailed .. | .release .. | .cleanup .. => false

/-- Of pools with these keys a call has counted each once or has it still before it, and there
are as many as it found; and what it has counted so far adds up. -/
structure Summing.Sound (keys : List Bytes) (u : Summing) : Prop where
  perm : (u.counted ++ u.rest).Perm keys
  hostsCount : u.stats.hostsCount = keys.length
  total : (u.stats.totalConnections : ℤ) = u.stats.activeConnections + u.stats.idleConnections

/-- What a call returned: it had counted pools with these keys, each once, as many as it says; and
the counts add up. -/
structure Summing.Returned (keys : List Bytes) (u : Summing) : Prop where
  nodup : u.counted.Nodup
  subset : ∀ key ∈ u.counted, key ∈ keys
  hostsCount : u.stats.hostsCount = u.counted.length
  total : (u.stats.totalConnections : ℤ) = u.stats.activeConnections + u.stats.idleConnections

structure Invariant (s : State) : Prop where
  held : HeldFromPools s
  host : ∀ key, ConnectionPool.Invariant (s.host key)
  summing : ∀ u ∈ s.summing, u.Sound s.pools.keys
  returned : ∀ u ∈ s.returned, u.Returned s.pools.keys

section Frame

variable {config : Config} {s t : State} {key : Bytes}

theorem mem_pools_of_lookup {pool : HostPool} (h : s.pools.lookup key = some pool) :
    key ∈ s.pools :=
  AList.lookup_isSome.mp (Option.isSome_of_mem h)

/-- What steps other than those of `getStats` leave: no pool goes, and one is made only while no
call counts; what is held is from a pool; and the calls stay where they are. -/
structure Frame (s t : State) : Prop where
  keys : t.pools.keys.Perm s.pools.keys ∨
    s.summing = [] ∧ ∃ key, t.pools.keys = key :: s.pools.keys
  held : ∀ key, t.held key ≠ [] → s.held key ≠ [] ∨ key ∈ s.pools
  summing : t.summing = s.summing
  returned : t.returned = s.returned

/-- What is held of one pool changes. -/
theorem held_update {l : List ℕ} (h : key ∈ s.pools) (key' : Bytes)
    (hheld : Function.update s.held key l key' ≠ []) : s.held key' ≠ [] ∨ key' ∈ s.pools := by
  by_cases heq : key' = key
  · exact Or.inr (heq ▸ h)
  · rw [Function.update_of_ne heq] at hheld
    exact Or.inl hheld

theorem frame_acquire {thread : ℕ} {timeoutTime now : ℤ} {valid : ℕ → Bool}
    (h : acquire config s thread key timeoutTime now valid = some t) : Frame s t := by
  obtain ⟨pool, hpool, rfl⟩ := Option.map_eq_some_iff.mp h
  have hmem := mem_pools_of_lookup hpool
  split
  · exact ⟨Or.inl (AList.keys_insert_perm hmem _), held_update hmem, rfl, rfl⟩
  · exact ⟨Or.inl (AList.keys_insert_perm hmem _), fun _ => Or.inl, rfl, rfl⟩

theorem frame_step (hs : HeldFromPools s) {a : Action} (ha : a.counts = false)
    (hstep : step config s a = some t) : Frame s t := by
  cases a with
  | enter thread host port =>
    simp only [step] at hstep
    split at hstep
    · split at hstep
      · obtain rfl := Option.some.inj hstep
        exact ⟨Or.inl (List.Perm.refl _), fun _ => Or.inl, rfl, rfl⟩
      · next hnew =>
        obtain ⟨hnone, heq⟩ := Option.ite_none_right_eq_some.mp hstep
        obtain rfl := Option.some.inj heq
        exact ⟨Or.inr ⟨hnone, _, AList.keys_insert_of_notMem hnew _⟩, fun _ => Or.inl, rfl, rfl⟩
    · cases hstep
  | acquire thread start now valid =>
    simp only [step] at hstep
    split at hstep
    · exact frame_acquire hstep
    · exact frame_acquire hstep
    · cases hstep
  | connected thread now =>
    simp only [step] at hstep
    split at hstep
    · obtain ⟨pool, hpool, rfl⟩ := Option.map_eq_some_iff.mp hstep
      have hmem := mem_pools_of_lookup hpool
      exact ⟨Or.inl (AList.keys_insert_perm hmem _), held_update hmem, rfl, rfl⟩
    · cases hstep
  | connectFailed thread now =>
    simp only [step] at hstep
    split at hstep
    · obtain rfl := Option.some.inj hstep
      exact ⟨Or.inl (List.Perm.refl _), fun _ => Or.inl, rfl, rfl⟩
    · cases hstep
  | release host port c now valid =>
    simp only [step] at hstep
    obtain ⟨hheld, heq⟩ := Option.ite_none_right_eq_some.mp hstep
    have hmem := hs _ (List.ne_nil_of_mem hheld)
    obtain ⟨pool, hpool⟩ := Option.isSome_iff_exists.mp (AList.lookup_isSome.mpr hmem)
    rw [hpool] at heq
    obtain rfl := Option.some.inj heq
    exact ⟨Or.inl (AList.keys_insert_perm hmem _), held_update hmem, rfl, rfl⟩
  | cleanup key' now =>
    obtain rfl := Option.some.inj hstep
    cases hpool : s.pools.lookup key' with
    | none => exact ⟨Or.inl (List.Perm.refl _), fun _ => Or.inl, rfl, rfl⟩
    | some pool =>
      have hkeys := AList.keys_insert_perm (mem_pools_of_lookup hpool) (pool.cleanup config now)
      exact ⟨Or.inl hkeys, fun _ => Or.inl, rfl, rfl⟩
  | beginStats order | addStats call | endStats call => cases ha

theorem Frame.mem_keys (h : Frame s t) (hkey : key ∈ s.pools.keys) : key ∈ t.pools.keys := by
  rcases h.keys with hperm | ⟨-, key', heq⟩
  · exact hperm.mem_iff.mpr hkey
  · rw [heq]
    exact List.mem_cons_of_mem _ hkey

end Frame

/-- In a consistent pool the connections are those in use and those in the queue. -/
theorem total_of_consistent {pool : HostPool} (h : pool.Consistent) :
    (pool.allConnections.length : ℤ) = pool.activeCount + pool.idleConnections.length := by
  have hqueue : pool.idleConnections.Perm
      (pool.allConnections.filter fun c => !pool.inUse c) := by
    refine (List.perm_ext_iff_of_nodup h.idle_nodup (h.nodup.filter _)).mpr fun c => ?_
    rw [h.idle_iff, List.mem_filter, Bool.not_eq_true']
  have hidle : pool.idleConnections.length =
      pool.allConnections.countP fun c => !pool.inUse c := by
    rw [hqueue.length_eq, List.countP_eq_length_filter]
  have hall := List.length_eq_countP_add_countP (l := pool.allConnections) pool.inUse
  have hnot : (pool.allConnections.countP fun c => ¬ pool.inUse c = true) =
      pool.allConnections.countP fun c => !pool.inUse c :=
    List.countP_congr fun c _ => by simp
  rw [h.active, hidle, ← hnot, hall]
  push_cast
  rfl

section Invariant

variable {config : Config} {s t : State}

theorem Summing.Sound.frame {u : Summing} (h : u.Sound s.pools.keys) (hframe : Frame s t)
    (hu : u ∈ s.summing) : u.Sound t.pools.keys := by
  rcases hframe.keys with hperm | ⟨hnone, -⟩
  · exact ⟨h.perm.trans hperm.symm, h.hostsCount.trans hperm.length_eq.symm, h.total⟩
  · rw [hnone] at hu
    exact absurd hu List.not_mem_nil

/-- The next pool is counted, as it is now. -/
theorem Summing.Sound.add {keys : List Bytes} {u : Summing} (h : u.Sound keys) {key : Bytes}
    {rest : List Bytes} (hrest : u.rest = key :: rest) {pool : HostPool}
    (hpool : pool.Consistent) : (u.add key rest pool).Sound keys := by
  refine ⟨?_, h.hostsCount, ?_⟩
  · have hkeys := h.perm
    rw [hrest] at hkeys
    exact List.perm_middle.symm.trans hkeys
  · have htotal := h.total
    have hmore := total_of_consistent hpool
    show ((u.stats.totalConnections + pool.allConnections.length : ℕ) : ℤ) =
      u.stats.activeConnections + pool.activeCount +
        ((u.stats.idleConnections + pool.idleConnections.length : ℕ) : ℤ)
    push_cast
    omega

/-- A call that has come to the end has counted every pool. -/
theorem Summing.Sound.returned {keys : List Bytes} {u : Summing} (h : u.Sound keys)
    (hrest : u.rest = []) (hnodup : keys.Nodup) : u.Returned keys := by
  have hkeys := h.perm
  rw [hrest, List.append_nil] at hkeys
  exact ⟨hkeys.nodup_iff.mpr hnodup, fun key => hkeys.mem_iff.mp,
    h.hostsCount.trans hkeys.length_eq.symm, h.total⟩

/-- **Every step keeps this.** -/
theorem Invariant.step (h : Invariant s) {a : Action} (hstep : step config s a = some t) :
    Invariant t := by
  have hhost : ∀ key, ConnectionPool.Invariant (t.host key) := by
    intro key
    rcases step_host h.held hstep key with hsame | ⟨b, hb⟩
    · rw [hsame]
      exact h.host key
    · exact (h.host key).step hb
  cases hcounts : a.counts with
  | false =>
    have hframe := frame_step h.held hcounts hstep
    refine ⟨fun key hheld => ?_, hhost, fun u hu => ?_, fun u hu => ?_⟩
    · refine AList.mem_keys.mpr (hframe.mem_keys (AList.mem_keys.mp ?_))
      exact (hframe.held key hheld).elim (h.held key) id
    · rw [hframe.summing] at hu
      exact (h.summing u hu).frame hframe hu
    · rw [hframe.returned] at hu
      have hold := h.returned u hu
      exact ⟨hold.nodup, fun key hkey => hframe.mem_keys (hold.subset key hkey), hold.hostsCount,
        hold.total⟩
  | true =>
    cases a with
    | beginStats order =>
      obtain ⟨horder, heq⟩ := Option.ite_none_right_eq_some.mp hstep
      obtain rfl := Option.some.inj heq
      refine ⟨h.held, hhost, fun u hu => ?_, h.returned⟩
      rcases List.mem_append.mp hu with hu | hu
      · exact h.summing u hu
      · rw [List.mem_singleton.mp hu]
        exact ⟨horder, rfl, rfl⟩
    | addStats call =>
      simp only [HostPools.step] at hstep
      split at hstep
      · next u hu =>
        split at hstep
        · cases hstep
        · next key rest hrest =>
          obtain ⟨pool, hpool, rfl⟩ := Option.map_eq_some_iff.mp hstep
          have hconsistent : pool.Consistent := by
            have hpool' := (h.host key).pool
            rwa [State.host, hpool] at hpool'
          refine ⟨h.held, hhost, fun v hv => ?_, h.returned⟩
          rcases List.mem_or_eq_of_mem_set hv with hv | rfl
          · exact h.summing v hv
          · exact (h.summing u (List.mem_of_getElem? hu)).add hrest hconsistent
      · cases hstep
    | endStats call =>
      simp only [HostPools.step] at hstep
      split at hstep
      · next u hu =>
        obtain ⟨hrest, heq⟩ := Option.ite_none_right_eq_some.mp hstep
        obtain rfl := Option.some.inj heq
        refine ⟨h.held, hhost, fun v hv => ?_, fun v hv => ?_⟩
        · exact h.summing v (List.mem_of_mem_eraseIdx hv)
        · rcases List.mem_cons.mp hv with rfl | hv
          · exact (h.summing v (List.mem_of_getElem? hu)).returned hrest s.pools.keys_nodup
          · exact h.returned v hv
      · cases hstep
    | enter | acquire | connected | connectFailed | release | cleanup => cases hcounts

theorem invariant_init : Invariant {} where
  held _ h := absurd rfl h
  host _ := ConnectionPool.invariant_init
  summing _ h := absurd h List.not_mem_nil
  returned _ h := absurd h List.not_mem_nil

theorem invariant_exec {as : List Action}
    (h : (hostPools config).exec (hostPools config).init as = some t) : Invariant t :=
  System.reachable_invariant invariant_init (fun _ _ _ hs hstep => hs.step hstep) h

end Invariant

end HostPools

/-- **Each address has a connection pool to itself**: no two addresses have the same key; and what
a run of the pools of all hosts looks like from an address is a run of the pool of one host. -/
theorem hostPools_refine (config : Config) :
    (∀ (host host' : Bytes) (port port' : ℤ), makeKey host port = makeKey host' port' →
      host = host' ∧ port = port') ∧
    ∀ (as : List HostPools.Action) (t : HostPools.State),
      (hostPools config).exec (hostPools config).init as = some t →
        ∀ (host : Bytes) (port : ℤ), ∃ bs,
          (connectionPool config).exec (connectionPool config).init bs =
            some (t.host (makeKey host port)) := by
  refine ⟨fun _ _ _ _ => makeKey_inj, fun as t h host port => ?_⟩
  exact System.exec_simulates (connectionPool config)
    (fun s : HostPools.State => s.host (makeKey host port)) HostPools.Invariant
    HostPools.invariant_init rfl (fun s a u hs hstep => hs.step hstep)
    (fun s a u hs hstep => step_host hs.held hstep _) h

/-- A thread has a connection to each of two hosts, and releases that to the first while the pools
are being counted. -/
def HostPools.sample : List HostPools.Action :=
  [.enter 0 (utf8 "10.0.0.1") 80, .acquire 0 0 0 fun _ => true, .connected 0 0,
    .enter 0 (utf8 "10.0.0.2") 80, .acquire 0 0 0 fun _ => true, .connected 0 0,
    .beginStats [makeKey (utf8 "10.0.0.2") 80, makeKey (utf8 "10.0.0.1") 80], .addStats 0,
    .release (utf8 "10.0.0.1") 80 0 1 true, .addStats 0, .endStats 0]

theorem hostPools_refine_sample : ∃ t,
    (hostPools {}).exec (hostPools {}).init HostPools.sample = some t ∧
      t.held (makeKey (utf8 "10.0.0.2") 80) = [0] ∧
      ∃ bs, (connectionPool {}).exec (connectionPool {}).init bs =
        some (t.host (makeKey (utf8 "10.0.0.2") 80)) := by
  obtain ⟨t, ht, hheld⟩ := (hostPools {}).exists_exec_of_any (hostPools {}).init HostPools.sample
    (fun t => decide (t.held (makeKey (utf8 "10.0.0.2") 80) = [0])) (by decide +kernel)
  exact ⟨t, ht, of_decide_eq_true hheld, (hostPools_refine {}).2 _ t ht _ _⟩

/-- **The statistics add up**: whatever happens to the pools while a call of `getStats` goes from
one to the next, it has counted pools there are, none of them twice, and as many as it says; and
the connections it returns are those it returns as active and as idle. -/
theorem hostPools_stats (config : Config) :
    ∀ (as : List HostPools.Action) (t : HostPools.State),
      (hostPools config).exec (hostPools config).init as = some t →
        ∀ u ∈ t.returned, u.Returned t.pools.keys := by
  intro as t h
  exact (HostPools.invariant_exec h).returned

theorem hostPools_stats_sample : ∃ t,
    (hostPools {}).exec (hostPools {}).init HostPools.sample = some t ∧
      ∃ u ∈ t.returned, u.stats = ⟨2, 2, 1, 1⟩ ∧ u.Returned t.pools.keys := by
  obtain ⟨t, ht, htest⟩ := (hostPools {}).exists_exec_of_any (hostPools {}).init HostPools.sample
    (fun t => t.returned.any fun u => decide (u.stats = ⟨2, 2, 1, 1⟩)) (by decide +kernel)
  obtain ⟨u, hu, hstats⟩ := List.any_eq_true.mp htest
  exact ⟨t, ht, u, hu, of_decide_eq_true hstats, hostPools_stats {} _ t ht u hu⟩
