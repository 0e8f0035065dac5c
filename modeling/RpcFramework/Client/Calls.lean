import RpcFramework.Client.RpcClient
import RpcFramework.Lib.Census

/-!
# Connections of a client's calls

Threads of a client call `discoverServiceFromRegistry` and `callEndpoint`, each of which
acquires a connection from the pool of an address, tries an exchange on it, and is to give it
back.  `callEndpoint` does so on every way out.  `discoverServiceFromRegistry` does so at the
end of what it tries, which an exception skips.

The pool remembers what was acquired and has not been released, and its counter counts that.

## Main definitions

* `RpcClient.Function`, `RpcClient.Completed` — what is called, and a call that has ended.
* `Calls.State`, `Calls.step` — the system `clientCalls`.
* `Calls.GivenBack` — every connection was released once, and the counters count what calls in
  progress have.
* `Calls.DiscoveryAnswered` — a discovery that has a connection gets an answer it can read.

## Main results

* `RpcClient.Completed.releases_eq_one_iff` — the calls that release their connection.
* `Calls.clientCalls_givenBack_iff` — **the runs in which all connections are given back.**
-/

open Rpc ConnectionPool

namespace RpcClient

/-- `discoverServiceFromRegistry`: the endpoints, and how many times the connection was
released. -/
def discoverServiceFromRegistry (a : Attempt) : List ServiceEndpoint × ℕ :=
  match a.acquired with
  | .threw _ => ([], 0)
  | .connection =>
      if a.sent then
        match readEndpoints a.received with
        | .ok endpoints => (endpoints, 1)
        -- the handler of the exception does not know the connection
        | .error _ => ([], 0)
      else ([], 0)

/-- `makeKey`. -/
def makeKey (endpoint : ServiceEndpoint) : Bytes :=
  endpoint.host ++ utf8 ":" ++ decimal endpoint.port

inductive Function where
  | discoverServiceFromRegistry
  | callEndpoint (endpoint : ServiceEndpoint)
  deriving DecidableEq, Repr

/-- The key of the pool that the function uses. -/
def Function.key (registry : ServiceEndpoint) : Function → Bytes
  | .discoverServiceFromRegistry => makeKey registry
  | .callEndpoint endpoint => makeKey endpoint

/-- A call that has ended, and what happened to it. -/
structure Completed where
  function : Function
  attempt : Attempt
  deriving DecidableEq, Repr

/-- How many times the call released its connection. -/
def Completed.releases (call : Completed) : ℕ :=
  match call.function with
  | .discoverServiceFromRegistry => (RpcClient.discoverServiceFromRegistry call.attempt).2
  | .callEndpoint _ => (RpcClient.callEndpoint call.attempt).2

/-- The answer to a discovery can be received and read. -/
def Attempt.Answered (a : Attempt) : Prop := a.sent = true ∧ (readEndpoints a.received).isOk = true

instance (a : Attempt) : Decidable a.Answered := inferInstanceAs (Decidable (_ ∧ _))

/-- **A call that has a connection releases it once** unless it is a discovery that gets no
answer it can read; then it does not release it. -/
theorem Completed.releases_eq_one_iff (call : Completed)
    (hconnection : call.attempt.acquired = .connection) :
    (call.releases = 1 ↔
        (call.function = .discoverServiceFromRegistry → call.attempt.Answered)) ∧
      (call.releases ≠ 1 → call.releases = 0) := by
  obtain ⟨function, acquired, sent, received⟩ := call
  obtain rfl : acquired = .connection := hconnection
  cases function with
  | callEndpoint endpoint =>
    have hone : (RpcClient.callEndpoint { sent := sent, received := received }).2 = 1 := by
      rw [RpcClient.callEndpoint]
      cases Attempt.exchange { sent := sent, received := received } <;> rfl
    exact ⟨iff_of_true hone nofun, fun hne => absurd hone hne⟩
  | discoverServiceFromRegistry =>
    simp only [releases, Attempt.Answered, RpcClient.discoverServiceFromRegistry]
    cases sent with
    | false => simp
    | true => cases readEndpoints received <;> simp [Except.isOk, Except.toBool]

end RpcClient

namespace Calls

open RpcClient

/-- Where a thread is in a call. -/
inductive Phase where
  | outside
  | acquiring (function : Function)
  | holding (function : Function) (c : ℕ)
  deriving DecidableEq, Repr

/-- The thread has a connection of the pool. -/
def Phase.holds (registry : ServiceEndpoint) (key : Bytes) : Phase → Bool
  | .holding function _ => function.key registry == key
  | _ => false

structure State (n : ℕ) where
  /-- The pool of each address. -/
  pools : Bytes → ConnectionPool.State := fun _ => {}
  threads : Fin n → Phase := fun _ => .outside
  /-- The calls that have ended, the latest first. -/
  completed : List Completed := []

inductive Action (n : ℕ) where
  | call (thread : Fin n) (function : Function) (start now : ℤ) (valid : ℕ → Bool)
  | awake (thread : Fin n) (now : ℤ) (valid : ℕ → Bool)
  | connected (thread : Fin n) (now : ℤ)
  | connectFailed (thread : Fin n) (now : ℤ)
  /-- The exchange, and the release if there is one. -/
  | finish (thread : Fin n) (sent : Bool) (received : Bytes) (now : ℤ) (valid : Bool)
  | cleanup (key : Bytes) (now : ℕ → ℤ)

section Step

variable {n : ℕ} (config : Config) (registry : ServiceEndpoint) (s : State n)

/-- A section of `acquire` in the call of a thread: it has a connection now, or it goes on, or
it has ended with an exception. -/
def settle (thread : Fin n) (function : Function) (pool : ConnectionPool.State) : State n :=
  let key := function.key registry
  let s' := { s with pools := Function.update s.pools key pool }
  if (s.pools key).held.length < pool.held.length then
    { s' with threads := Function.update s.threads thread (.holding function (pool.held.headD 0)) }
  else
    match pool.threads thread with
    | .outside =>
        { s' with
          threads := Function.update s.threads thread .outside
          completed :=
            ⟨function, { acquired := .threw (utf8 "Failed to acquire connection to " ++ key ++
              utf8 " - timeout") }⟩ :: s.completed }
    | _ => { s' with threads := Function.update s.threads thread (.acquiring function) }

/-- One section of one pool's mutex, and what the thread does up to it. -/
def step : Action n → Option (State n)
  | .call thread function start now valid =>
      match s.threads thread with
      | .outside =>
          (ConnectionPool.step config (s.pools (function.key registry))
            (.acquire thread start now valid)).map (settle registry s thread function)
      | _ => none
  | .awake thread now valid =>
      match s.threads thread with
      | .acquiring function =>
          match (s.pools (function.key registry)).threads thread with
          | .waiting _ =>
              (ConnectionPool.step config (s.pools (function.key registry))
                (.acquire thread 0 now valid)).map (settle registry s thread function)
          | _ => none
      | _ => none
  | .connected thread now =>
      match s.threads thread with
      | .acquiring function =>
          (ConnectionPool.step config (s.pools (function.key registry))
            (.connected thread now)).map (settle registry s thread function)
      | _ => none
  | .connectFailed thread now =>
      match s.threads thread with
      | .acquiring function =>
          (ConnectionPool.step config (s.pools (function.key registry))
            (.connectFailed thread now)).map (settle registry s thread function)
      | _ => none
  | .finish thread sent received now valid =>
      match s.threads thread with
      | .holding function c =>
          let call : Completed := ⟨function, { sent := sent, received := received }⟩
          let s' :=
            { s with
              threads := Function.update s.threads thread .outside
              completed := call :: s.completed }
          if call.releases = 0 then some s'
          else
            (ConnectionPool.step config (s.pools (function.key registry))
              (.release c now valid)).map fun pool =>
                { s' with pools := Function.update s.pools (function.key registry) pool }
      | _ => none
  | .cleanup key now =>
      (ConnectionPool.step config (s.pools key) (.cleanup now)).map fun pool =>
        { s with pools := Function.update s.pools key pool }

end Step

end Calls

open Calls in
/-- The threads of a client whose registry is at the given address. -/
def clientCalls (config : Config) (registry : RpcClient.ServiceEndpoint) (n : ℕ) :
    System (State n) (Action n) where
  init := {}
  step := Calls.step config registry

namespace Calls

open RpcClient

section GivenBack

variable {n : ℕ} (registry : ServiceEndpoint) (s : State n)

/-- Every call that had a connection released it once; and each pool counts as active the
connections of the calls in progress. -/
structure GivenBack : Prop where
  once : ∀ call ∈ s.completed, call.attempt.acquired = .connection → call.releases = 1
  active : ∀ key, (s.pools key).pool.activeCount = census s.threads (Phase.holds registry key)

/-- If the call that ends is a discovery, it got an answer that it can read. -/
def DiscoveryAnswered : Action n → Prop
  | .finish thread sent received _ _ =>
      match s.threads thread with
      | .holding .discoverServiceFromRegistry _ =>
          Attempt.Answered { sent := sent, received := received }
      | _ => True
  | _ => True

instance (a : Action n) : Decidable (DiscoveryAnswered s a) := by
  unfold DiscoveryAnswered
  split
  · split <;> infer_instance
  · infer_instance

end GivenBack

/-! ### The steps -/

/-- What a step does: a section of `acquire`, the end of a call that has a connection, or a
cleanup. -/
inductive Step {n : ℕ} (config : Config) (registry : ServiceEndpoint) (s : State n) :
    Action n → State n → Prop where
  | acquire (a : Action n) (b : ConnectionPool.Action) (thread : Fin n) (function : Function)
      (pool : ConnectionPool.State) (hends : DiscoveryAnswered s a)
      (hthread : ∀ key, (s.threads thread).holds registry key = false)
      (hpool : ConnectionPool.step config (s.pools (function.key registry)) b = some pool)
      (hheld : pool.held = (s.pools (function.key registry)).held ∨
        ∃ c, pool.held = c :: (s.pools (function.key registry)).held) :
      Step config registry s a (settle registry s thread function pool)
  | keep (thread : Fin n) (sent : Bool) (received : Bytes) (now : ℤ) (valid : Bool)
      (function : Function) (c : ℕ) (hthread : s.threads thread = .holding function c)
      (hnone : Completed.releases ⟨function, { sent := sent, received := received }⟩ = 0) :
      Step config registry s (.finish thread sent received now valid)
        { s with
          threads := Function.update s.threads thread .outside
          completed := ⟨function, { sent := sent, received := received }⟩ :: s.completed }
  | release (thread : Fin n) (sent : Bool) (received : Bytes) (now : ℤ) (valid : Bool)
      (function : Function) (c : ℕ) (pool : ConnectionPool.State)
      (hthread : s.threads thread = .holding function c)
      (hsome : Completed.releases ⟨function, { sent := sent, received := received }⟩ ≠ 0)
      (hpool : ConnectionPool.step config (s.pools (function.key registry))
        (.release c now valid) = some pool) :
      Step config registry s (.finish thread sent received now valid)
        { pools := Function.update s.pools (function.key registry) pool
          threads := Function.update s.threads thread .outside
          completed := ⟨function, { sent := sent, received := received }⟩ :: s.completed }
  | cleanup (key : Bytes) (now : ℕ → ℤ) (pool : ConnectionPool.State)
      (hpool : ConnectionPool.step config (s.pools key) (.cleanup now) = some pool) :
      Step config registry s (.cleanup key now)
        { s with pools := Function.update s.pools key pool }

section Steps

variable {n : ℕ} {config : Config} {registry : ServiceEndpoint} {s t : State n} {a : Action n}

/-- A section of `acquire` adds at most what the thread is given to what is held. -/
theorem held_acquire {pool pool' : ConnectionPool.State} {b : ConnectionPool.Action}
    (hstep : ConnectionPool.step config pool b = some pool')
    (hb : ∀ c now valid, b ≠ .release c now valid) :
    pool'.held = pool.held ∨ ∃ c, pool'.held = c :: pool.held := by
  have hacquire : ∀ thread timeoutTime now valid,
      (ConnectionPool.acquire config pool thread timeoutTime now valid).held = pool.held ∨
        ∃ c, (ConnectionPool.acquire config pool thread timeoutTime now valid).held =
          c :: pool.held := by
    intro thread timeoutTime now valid
    unfold ConnectionPool.acquire
    split
    · next c heq => exact Or.inr ⟨c, rfl⟩
    · exact Or.inl rfl
  cases ConnectionPool.step_cases hstep with
  | acquire thread start now timeoutTime valid hthread => exact hacquire thread _ now valid
  | connected thread now timeoutTime hthread => exact Or.inr ⟨_, rfl⟩
  | connectFailed | cleanup => exact Or.inl rfl
  | release c now valid hheld => exact absurd rfl (hb c now valid)

/-- **What a step can do.** -/
theorem step_cases (hstep : Calls.step config registry s a = some t) :
    Step config registry s a t := by
  cases a with
  | call thread function start now valid =>
    simp only [Calls.step] at hstep
    split at hstep
    · next hthread =>
      obtain ⟨pool, hpool, rfl⟩ := Option.map_eq_some_iff.mp hstep
      exact .acquire _ _ thread function pool trivial (fun key => by rw [hthread]; rfl) hpool
        (held_acquire hpool nofun)
    · cases hstep
  | awake thread now valid =>
    simp only [Calls.step] at hstep
    split at hstep
    · next function hthread =>
      split at hstep
      · obtain ⟨pool, hpool, rfl⟩ := Option.map_eq_some_iff.mp hstep
        exact .acquire _ _ thread function pool trivial (fun key => by rw [hthread]; rfl) hpool
          (held_acquire hpool nofun)
      · cases hstep
    · cases hstep
  | connected thread now =>
    simp only [Calls.step] at hstep
    split at hstep
    · next function hthread =>
      obtain ⟨pool, hpool, rfl⟩ := Option.map_eq_some_iff.mp hstep
      exact .acquire _ _ thread function pool trivial (fun key => by rw [hthread]; rfl) hpool
        (held_acquire hpool nofun)
    · cases hstep
  | connectFailed thread now =>
    simp only [Calls.step] at hstep
    split at hstep
    · next function hthread =>
      obtain ⟨pool, hpool, rfl⟩ := Option.map_eq_some_iff.mp hstep
      exact .acquire _ _ thread function pool trivial (fun key => by rw [hthread]; rfl) hpool
        (held_acquire hpool nofun)
    · cases hstep
  | finish thread sent received now valid =>
    simp only [Calls.step] at hstep
    split at hstep
    · next function c hthread =>
      split at hstep
      · next hnone =>
        rw [← Option.some.inj hstep]
        exact .keep thread sent received now valid function c hthread hnone
      · next hsome =>
        obtain ⟨pool, hpool, rfl⟩ := Option.map_eq_some_iff.mp hstep
        exact .release thread sent received now valid function c pool hthread hsome hpool
    · cases hstep
  | cleanup key now =>
    simp only [Calls.step] at hstep
    obtain ⟨pool, hpool, rfl⟩ := Option.map_eq_some_iff.mp hstep
    exact .cleanup key now pool hpool

end Steps

/-! ### What is held -/

/-- The call did not release its connection, which was of the pool. -/
def Leaked (registry : ServiceEndpoint) (key : Bytes) (call : Completed) : Prop :=
  call.attempt.acquired = .connection ∧ call.releases = 0 ∧ call.function.key registry = key

instance (registry : ServiceEndpoint) (key : Bytes) (call : Completed) :
    Decidable (Leaked registry key call) := inferInstanceAs (Decidable (_ ∧ _ ∧ _))

/-- Each pool counts what is held, and that is what calls in progress have and what calls that
have ended did not release. -/
structure Kept {n : ℕ} (registry : ServiceEndpoint) (s : State n) : Prop where
  pool : ∀ key, Invariant (s.pools key)
  active : ∀ key, (s.pools key).pool.activeCount = (s.pools key).held.length
  held : ∀ key, (s.pools key).held.length =
    census s.threads (Phase.holds registry key) +
      s.completed.countP fun call => decide (Leaked registry key call)

section Kept

variable {n : ℕ} {config : Config} {registry : ServiceEndpoint} {s t : State n} {a : Action n}

theorem holds_outside (key : Bytes) : (Phase.outside.holds registry key).toNat = 0 := rfl

theorem holds_holding (key : Bytes) (function : Function) (c : ℕ) :
    ((Phase.holding function c).holds registry key).toNat =
      if function.key registry = key then 1 else 0 := by
  by_cases hkey : function.key registry = key <;> simp [Phase.holds, hkey]

theorem kept_init : Kept registry ({} : State n) where
  pool _ := invariant_init
  active _ := rfl
  held key := by
    have hnobody : census (fun _ : Fin n => Phase.outside) (Phase.holds registry key) = 0 :=
      census_eq_zero.mpr fun _ => rfl
    exact hnobody.symm

/-- A step of one thread keeps all this if what is held fits. -/
theorem Kept.update (h : Kept registry s) {pools : Bytes → ConnectionPool.State}
    (hpools : ∀ key, Invariant (pools key) ∧
      (pools key).pool.activeCount = (pools key).held.length)
    {thread : Fin n} {phase : Phase} {completed : List Completed}
    (hheld : ∀ key, (pools key).held.length + ((s.threads thread).holds registry key).toNat +
          s.completed.countP (fun call => decide (Leaked registry key call)) =
      (s.pools key).held.length + (phase.holds registry key).toNat +
          completed.countP fun call => decide (Leaked registry key call)) :
    Kept registry
      { pools := pools
        threads := Function.update s.threads thread phase
        completed := completed } := by
  refine ⟨fun key => (hpools key).1, fun key => (hpools key).2, fun key => ?_⟩
  have hcensus := census_update s.threads (Phase.holds registry key) thread phase
  have hbefore := h.held key
  have hafter := hheld key
  show (pools key).held.length =
    census (Function.update s.threads thread phase) (Phase.holds registry key) +
      completed.countP fun call => decide (Leaked registry key call)
  omega

/-- A step of the pool at a key keeps every pool in order. -/
theorem Kept.pools_update (h : Kept registry s) {key : Bytes} {pool : ConnectionPool.State}
    {b : ConnectionPool.Action} (hpool : ConnectionPool.step config (s.pools key) b = some pool)
    (key' : Bytes) :
    Invariant (Function.update s.pools key pool key') ∧
      (Function.update s.pools key pool key').pool.activeCount =
        (Function.update s.pools key pool key').held.length := by
  by_cases hkey : key' = key
  · rw [hkey, Function.update_self]
    exact ⟨(h.pool key).step hpool, (h.pool key).activeCount_step (h.active key) hpool⟩
  · rw [Function.update_of_ne hkey]
    exact ⟨h.pool key', h.active key'⟩

/-- What is held at each key after a step of the pool at one. -/
theorem length_held_update {pools : Bytes → ConnectionPool.State} {key : Bytes}
    {pool : ConnectionPool.State} {less more : ℕ}
    (hheld : pool.held.length + less = (pools key).held.length + more) (key' : Bytes) :
    (Function.update pools key pool key').held.length + (if key = key' then less else 0) =
      (pools key').held.length + if key = key' then more else 0 := by
  by_cases hkey : key = key'
  · subst hkey
    rw [Function.update_self, if_pos rfl, if_pos rfl, hheld]
  · rw [Function.update_of_ne (fun heq => hkey heq.symm), if_neg hkey, if_neg hkey]

theorem Kept.settle (h : Kept registry s) {thread : Fin n} {function : Function}
    {pool : ConnectionPool.State} {b : ConnectionPool.Action}
    (hthread : ∀ key, (s.threads thread).holds registry key = false)
    (hpool : ConnectionPool.step config (s.pools (function.key registry)) b = some pool)
    (hheld : pool.held = (s.pools (function.key registry)).held ∨
      ∃ c, pool.held = c :: (s.pools (function.key registry)).held) :
    Kept registry (Calls.settle registry s thread function pool) := by
  have hpools := h.pools_update hpool
  rw [Calls.settle]
  split
  · next hmore =>
    have hone : pool.held.length + 0 = (s.pools (function.key registry)).held.length + 1 := by
      rcases hheld with heq | ⟨c, heq⟩
      · rw [heq] at hmore
        exact absurd hmore (lt_irrefl _)
      · rw [heq, List.length_cons, add_zero]
    refine h.update hpools fun key' => ?_
    have hlength := length_held_update hone key'
    rw [ite_self] at hlength
    rw [hthread, Bool.toNat_false, holds_holding]
    dsimp only
    omega
  · next hmore =>
    have hsame : pool.held.length + 0 = (s.pools (function.key registry)).held.length + 0 := by
      rcases hheld with heq | ⟨c, heq⟩
      · rw [heq]
      · rw [heq, List.length_cons] at hmore
        exact absurd (Nat.lt_succ_self _) hmore
    have hlength := length_held_update hsame
    simp only [ite_self, add_zero] at hlength
    split
    · refine h.update hpools fun key' => ?_
      rw [hlength, hthread]
      simp [Phase.holds, Leaked]
    · refine h.update hpools fun key' => ?_
      rw [hlength, hthread]
      simp [Phase.holds]

/-- **Every step keeps this.** -/
theorem Kept.step (h : Kept registry s) (hstep : Calls.step config registry s a = some t) :
    Kept registry t := by
  cases step_cases hstep with
  | acquire a b thread function pool hends hthread hpool hheld =>
    exact h.settle hthread hpool hheld
  | keep thread sent received now valid function c hthread hnone =>
    refine h.update (fun key => ⟨h.pool key, h.active key⟩) fun key => ?_
    have hleaked : Leaked registry key ⟨function, { sent := sent, received := received }⟩ ↔
        function.key registry = key := ⟨fun h => h.2.2, fun hkey => ⟨rfl, hnone, hkey⟩⟩
    rw [hthread, holds_holding, holds_outside, List.countP_cons]
    simp only [hleaked, decide_eq_true_eq]
    omega
  | release thread sent received now valid function c pool hthread hsome hpool =>
    have hless : pool.held.length + 1 = (s.pools (function.key registry)).held.length + 0 := by
      cases ConnectionPool.step_cases hpool with
      | release _ _ _ hheld =>
        show ((s.pools (function.key registry)).held.erase c).length + 1 = _
        have hpos := List.length_pos_of_mem hheld
        rw [List.length_erase_of_mem hheld]
        omega
    refine h.update (h.pools_update hpool) fun key => ?_
    have hlength := length_held_update hless key
    have hleaked : ¬ Leaked registry key ⟨function, { sent := sent, received := received }⟩ :=
      fun h => hsome h.2.1
    rw [hthread, holds_holding, holds_outside, List.countP_cons]
    simp only [hleaked, decide_false, Bool.false_eq_true, if_false]
    rw [ite_self] at hlength
    omega
  | cleanup key now pool hpool =>
    have hpools := h.pools_update hpool
    have hsame : pool.held.length + 0 = (s.pools key).held.length + 0 := by
      rw [← Option.some.inj hpool]
    have hlength := length_held_update hsame
    simp only [ite_self, add_zero] at hlength
    refine ⟨fun key' => (hpools key').1, fun key' => (hpools key').2, fun key' => ?_⟩
    show (Function.update s.pools key pool key').held.length = _
    rw [hlength]
    exact h.held key'

/-- All is given back if every call released its connection. -/
theorem Kept.givenBack_iff (h : Kept registry s) : GivenBack registry s ↔
    ∀ call ∈ s.completed, call.attempt.acquired = .connection → call.releases = 1 := by
  refine ⟨fun hgiven => hgiven.once, fun honce => ⟨honce, fun key => ?_⟩⟩
  have hnone : s.completed.countP (fun call => decide (Leaked registry key call)) = 0 := by
    refine List.countP_eq_zero.mpr fun call hcall hleaked => ?_
    obtain ⟨hconnection, hzero, -⟩ := of_decide_eq_true hleaked
    rw [honce call hcall hconnection] at hzero
    exact absurd hzero one_ne_zero
  rw [h.active key, h.held key, hnone, add_zero]

/-- A step to a state where all is given back is one that ends no discovery, or ends it with
an answer. -/
theorem Kept.discoveryAnswered_iff (h : Kept registry s) (hgiven : GivenBack registry s)
    (hstep : Calls.step config registry s a = some t) :
    DiscoveryAnswered s a ↔ GivenBack registry t := by
  rw [(h.step hstep).givenBack_iff]
  have honce := hgiven.once
  -- a call that has a connection and ends
  have hends : ∀ (thread : Fin n) (sent : Bool) (received : Bytes) (now : ℤ) (valid : Bool)
      (function : Function) (c : ℕ), s.threads thread = .holding function c →
        (DiscoveryAnswered s (.finish thread sent received now valid) ↔
          ∀ call ∈ ⟨function, { sent := sent, received := received }⟩ :: s.completed,
            call.attempt.acquired = .connection → call.releases = 1) := by
    intro thread sent received now valid function c hthread
    have hcall := (Completed.releases_eq_one_iff
      ⟨function, { sent := sent, received := received }⟩ rfl).1
    rw [List.forall_mem_cons, and_iff_left honce]
    simp only [DiscoveryAnswered, hthread, forall_const, hcall]
    cases function <;> simp
  cases step_cases hstep with
  | acquire a b thread function pool hquiet hthread hpool hheld =>
    refine iff_of_true hquiet ?_
    rw [Calls.settle]
    split
    · exact honce
    · split
      · rw [List.forall_mem_cons]
        exact ⟨nofun, honce⟩
      · exact honce
  | keep thread sent received now valid function c hthread hnone =>
    exact hends thread sent received now valid function c hthread
  | release thread sent received now valid function c pool hthread hsome hpool =>
    exact hends thread sent received now valid function c hthread
  | cleanup key now pool hpool => exact iff_of_true trivial honce

/-- What was not given back stays so. -/
theorem Kept.givenBack_of_step (h : Kept registry s)
    (hstep : Calls.step config registry s a = some t) (hgiven : GivenBack registry t) :
    GivenBack registry s := by
  rw [h.givenBack_iff]
  intro call hcall
  refine hgiven.once call ?_
  cases step_cases hstep with
  | acquire a b thread function pool hquiet hthread hpool hheld =>
    rw [Calls.settle]
    split
    · exact hcall
    · split
      · exact List.mem_cons_of_mem _ hcall
      · exact hcall
  | keep | release => exact List.mem_cons_of_mem _ hcall
  | cleanup => exact hcall

end Kept

/-- **All connections are given back** at the end of just the runs in which every discovery
that has a connection gets an answer it can read. -/
theorem clientCalls_givenBack_iff {config : Config} {registry : ServiceEndpoint} {n : ℕ}
    {as : List (Action n)} {s : State n}
    (h : (clientCalls config registry n).exec (clientCalls config registry n).init as = some s) :
    GivenBack registry s ↔
      ((clientCalls config registry n).restrict DiscoveryAnswered).exec
        (clientCalls config registry n).init as = some s := by
  refine System.exec_restrict_iff_of_absorbing (I := Kept registry) ?_ ?_ ?_ kept_init ?_ h
  · exact fun s a t hs hst => hs.step hst
  · exact fun s a t hs hgiven hst => hs.discoveryAnswered_iff hgiven hst
  · exact fun s a t hs hst hgiven => hs.givenBack_of_step hst hgiven
  · exact kept_init.givenBack_iff.mpr fun call hcall => absurd hcall List.not_mem_nil

/-- A thread that connects, and what its exchange comes to. -/
def sampleRun (function : Function) (sent : Bool) : List (Action 1) :=
  [.call ⟨0, Nat.one_pos⟩ function 0 0 fun _ => true, .connected ⟨0, Nat.one_pos⟩ 0,
    .finish ⟨0, Nat.one_pos⟩ sent [] 0 true]

/-- A request that could not be sent is no loss to `callEndpoint`. -/
theorem clientCalls_givenBack_sample : ∃ s,
    (clientCalls {} ⟨utf8 "127.0.0.1", 8080⟩ 1).exec
      (clientCalls {} ⟨utf8 "127.0.0.1", 8080⟩ 1).init
      (sampleRun (.callEndpoint ⟨utf8 "127.0.0.1", 9001⟩) false) = some s ∧
      GivenBack ⟨utf8 "127.0.0.1", 8080⟩ s := by
  obtain ⟨s, hs, -⟩ := System.exists_exec_of_any
    ((clientCalls {} ⟨utf8 "127.0.0.1", 8080⟩ 1).restrict DiscoveryAnswered)
    (clientCalls {} ⟨utf8 "127.0.0.1", 8080⟩ 1).init
    (sampleRun (.callEndpoint ⟨utf8 "127.0.0.1", 9001⟩) false) (fun _ => true)
    (by decide +kernel)
  exact ⟨s, System.exec_restrict hs, (clientCalls_givenBack_iff (System.exec_restrict hs)).mpr hs⟩

/-- `discoverServiceFromRegistry` keeps the connection it could not send on. -/
theorem sampleRun_leaks : ¬ ∀ (config : Config) (registry : ServiceEndpoint) (n : ℕ)
    (as : List (Action n)) (s : State n),
    (clientCalls config registry n).exec (clientCalls config registry n).init as = some s →
      GivenBack registry s := by
  intro h
  obtain ⟨s, hs, hleaked⟩ := System.exists_exec_of_any
    (clientCalls {} ⟨utf8 "127.0.0.1", 8080⟩ 1) (clientCalls {} ⟨utf8 "127.0.0.1", 8080⟩ 1).init
    (sampleRun .discoverServiceFromRegistry false)
    (fun s => s.completed.any fun call =>
      decide (call.attempt.acquired = .connection ∧ call.releases = 0)) (by decide +kernel)
  obtain ⟨call, hcall, htest⟩ := List.any_eq_true.mp hleaked
  obtain ⟨hconnection, hzero⟩ := of_decide_eq_true htest
  have hone := (h _ _ _ _ s hs).once call hcall hconnection
  rw [hzero] at hone
  exact absurd hone (by decide)

end Calls
