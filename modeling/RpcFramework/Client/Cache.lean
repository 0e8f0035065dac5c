import RpcFramework.Client.RoundRobin
import RpcFramework.Lib.Census
import RpcFramework.Registry.Serving

/-!
# The cache of endpoints

`discoverService` looks into the cache under a shared lock, asks the registry with no lock
held, and stores the answer under the exclusive lock.  Any number of threads do this at the
same time, for calls and to warm up connections: between the sections of one, the others go
through theirs, the registry handles messages and sweeps, and time passes.  So an old answer may
overwrite a newer one, and what is found in the cache may be about instances that are long gone.

An answer is as old as the registry's knowledge when it was given, and the cache serves it for
as long as its time to live: together they bound how long ago the instance at an endpoint
that a call tries was last registered.

## Main definitions

* `RpcClient.CachedEndpoint`, `RpcClient.lookupCache` — the cache and its first section.
* `Caching.answer` — what the registry answers, as the client reads it.
* `Caching.State`, `Caching.step` — the system `caching`.
* `Caching.Accounted`, `Caching.StatsAddUp` — what the counters say.
* `Caching.Traced`, `Caching.Sourced` — where lists of endpoints come from.

## Main results

* `Caching.readEndpoints_answer` — what is read is what the registry had.
* `caching_accounted` — **the counters add up**, in every interleaving.
* `caching_sourced` — **how old an endpoint can be**, in every interleaving.
-/

open Rpc Discovery

namespace RpcClient

/-- An endpoint, with the time it was cached at. -/
structure CachedEndpoint where
  endpoint : ServiceEndpoint
  cachedTime : ℤ
  deriving DecidableEq, Repr

def CachedEndpoint.isExpired (e : CachedEndpoint) (ttl now : ℤ) : Prop := ttl < now - e.cachedTime

instance (e : CachedEndpoint) (ttl now : ℤ) : Decidable (e.isExpired ttl now) :=
  inferInstanceAs (Decidable (_ < _))

/-- The loop that fills `endpoints`: all of them are cached at `now`. -/
def stamp (now : ℤ) (endpoints : List ServiceEndpoint) : List CachedEndpoint :=
  endpoints.map fun e => ⟨e, now⟩

/-- The first section of `discoverService`: what is cached for the service, if there is
something and the first of it has not expired.  A service that is missing in the map is
treated like one without endpoints. -/
def lookupCache (cache : Bytes → List CachedEndpoint) (ttl now : ℤ) (serviceName : Bytes) :
    Option (List CachedEndpoint) :=
  match cache serviceName with
  | [] => none
  | first :: rest => if first.isExpired ttl now then none else some (first :: rest)

/-- The counters, which count modulo `2 ^ 64`. -/
structure Stats where
  totalCalls : UInt64
  successfulCalls : UInt64
  failedCalls : UInt64
  cacheHits : UInt64
  cacheMisses : UInt64
  deriving DecidableEq, Repr

end RpcClient

namespace Caching

open RpcClient

/-! ### The exchange with the registry -/

/-- The registry handles the client's request. -/
def asked (registry : Serving.State) (serviceName : Bytes) : Serving.State × Option Bytes :=
  registry.handle (TcpConnection.transmit (State.request serviceName))

/-- What the client reads of what comes back. -/
def answer (registry : Serving.State) (serviceName : Bytes) :
    Except Bytes (List ServiceEndpoint) :=
  readEndpoints ((asked registry serviceName).2.elim [] TcpConnection.transmit)

section Answer

variable {registry : Serving.State} {data serviceName : Bytes}

/-- What cannot be read as a registration is a discovery, or nothing. -/
theorem dispatch_of_parseRegister (hdata : data ≠ [])
    (hregister : parseIf ServiceRegisterRequest.codec ServiceRegisterRequest.Valid data = none) :
    RegistryServer.dispatch data =
      (parseIf ServiceDiscoveryRequest.codec ServiceDiscoveryRequest.Valid data).map
        .serviceDiscovery := by
  have hheartbeat := parseHeartbeat_none hregister
  rw [RegistryServer.dispatch, if_neg hdata, hregister, hheartbeat]
  cases parseIf ServiceDiscoveryRequest.codec ServiceDiscoveryRequest.Valid data with
  | none => rfl
  | some request => rfl

/-- The handler for a discovery is the only one that may run. -/
def Asks (data serviceName : Bytes) : Prop :=
  RegistryServer.dispatch data = none ∨
    RegistryServer.dispatch data = some (.serviceDiscovery { serviceName := serviceName })

theorem asks_request (serviceName : Bytes) :
    Asks (TcpConnection.transmit (State.request serviceName)) serviceName := by
  have hreceived := Serializer.transmit_serialize ServiceDiscoveryRequest.codec
    { serviceName := serviceName }
  rw [State.request, hreceived]
  split
  · next hpass =>
    have hlen := Serializer.le_maxLength_of_passes hpass
    have hdispatch := dispatch_of_parseRegister hpass.1
      (parseRegister_discovery (d := { serviceName := serviceName }) hlen)
    by_cases hname : serviceName = []
    · -- what names no service has no bytes
      subst hname
      exact absurd rfl hpass.1
    · rw [parseDiscovery_encode (d := { serviceName := serviceName }) hname hlen] at hdispatch
      rw [Asks, hdispatch]
      by_cases htext : validUtf8 serviceName = true
      · exact Or.inr (by rw [if_pos htext]; rfl)
      · exact Or.inl (by rw [if_neg htext]; rfl)
  · exact Or.inl rfl

/-- A request for a service leaves the registry as it is. -/
theorem Asks.handle_fst (registry : Serving.State) :
    ∀ {data serviceName : Bytes}, Asks data serviceName → (registry.handle data).1 = registry := by
  intro data serviceName h
  unfold Serving.State.handle RegistryServer.handleConnection Serving.registration
  rcases h with hnone | hsome
  · rw [hnone]
    rfl
  · rw [hsome]
    rfl

theorem Asks.handle_snd (registry : Serving.State) :
    ∀ {data serviceName : Bytes}, Asks data serviceName →
      (registry.handle data).2 = none ∨ (registry.handle data).2 =
        some (Serializer.serialize ServiceDiscoveryResponse.codec
          (registry.registry.handleServiceDiscovery { serviceName := serviceName })) := by
  intro data serviceName h
  unfold Serving.State.handle RegistryServer.handleConnection
  rcases h with hnone | hsome
  · exact Or.inl (by rw [hnone])
  · exact Or.inr (by rw [hsome])

theorem asked_fst (registry : Serving.State) (serviceName : Bytes) :
    (asked registry serviceName).1 = registry := by
  rw [asked]
  exact (asks_request serviceName).handle_fst registry

theorem readEndpoints_nil (endpoints : List ServiceEndpoint) :
    readEndpoints [] ≠ .ok endpoints := by
  rw [readEndpoints, if_pos rfl]
  intro h
  cases h

/-- **What is read is what the registry had**, if anything is read. -/
theorem readEndpoints_answer (hlisted : Listed registry.registry) :
    ∀ {endpoints : List ServiceEndpoint},
      answer registry serviceName = .ok endpoints →
        endpoints = registry.answer serviceName := by
  intro endpoints h
  rw [answer, asked] at h
  rcases (asks_request serviceName).handle_snd registry with hnone | hsome
  · rw [hnone] at h
    exact absurd h (readEndpoints_nil endpoints)
  · rw [hsome, Option.elim_some, Serializer.transmit_serialize] at h
    split at h
    · next hpass =>
      have hdecode := ServiceDiscoveryResponse.decode_encode
        (fun info hinfo => (hlisted.response info hinfo).1)
        (fun info hinfo => (hlisted.response info hinfo).2)
        (Serializer.le_maxLength_of_passes hpass)
      rw [readEndpoints, if_neg hpass.1, Serializer.deserialize, hdecode] at h
      exact (Except.ok.inj h).symm
    · exact absurd h (readEndpoints_nil endpoints)

end Answer

/-! ### The threads -/

/-- What `discoverService` is called for. -/
inductive Purpose where
  | call
  | warmup
  deriving DecidableEq, Repr

/-- Where a thread is. -/
inductive Phase where
  | outside
  | checking (purpose : Purpose) (serviceName : Bytes)
  | missed (purpose : Purpose) (serviceName : Bytes)
  | asking (purpose : Purpose) (serviceName : Bytes)
  | reading (purpose : Purpose) (serviceName : Bytes) (endpoints : List ServiceEndpoint)
  | storing (purpose : Purpose) (serviceName : Bytes) (endpoints : List CachedEndpoint)
  | returned (purpose : Purpose) (serviceName : Bytes) (endpoints : List CachedEndpoint)
  | calling (serviceName : Bytes) (endpoint : ServiceEndpoint)
  deriving DecidableEq, Repr

/-- An answer of the registry that was read, when it was given, and when the registry had swept
its services last. -/
structure Answer where
  serviceName : Bytes
  endpoints : List ServiceEndpoint
  time : ℤ
  swept : ℤ
  deriving DecidableEq, Repr

/-- What `discoverService` returned, when, and whether it was found in the cache. -/
structure Discovered where
  serviceName : Bytes
  endpoints : List CachedEndpoint
  time : ℤ
  hit : Bool
  deriving DecidableEq, Repr

structure State (n : ℕ) where
  client : RpcClient := {}
  cacheHits : ℕ := 0
  cacheMisses : ℕ := 0
  /-- What is cached for each service. -/
  cache : Bytes → List CachedEndpoint := fun _ => []
  threads : Fin n → Phase := fun _ => .outside
  registry : Serving.State := {}
  /-- No step reads what follows: the answers that were read, what was returned, and the number
  of discoveries begun. -/
  answers : List Answer := []
  discovered : List Discovered := []
  started : ℕ := 0

inductive Action (n : ℕ) where
  | call (i : Fin n) (serviceName : Bytes)
  | warmup (i : Fin n) (serviceName : Bytes)
  | check (i : Fin n)
  | miss (i : Fin n)
  | answer (i : Fin n)
  /-- No connection, no answer, or one that cannot be read. -/
  | fail (i : Fin n)
  | read (i : Fin n)
  | store (i : Fin n)
  | proceed (i : Fin n)
  /-- The retries are over; past those listed, attempts bring no data. -/
  | finish (i : Fin n) (attempts : List Attempt)
  /-- What happens at the registry, and the passing of time. -/
  | registry (action : Serving.Action)
  deriving DecidableEq, Repr

namespace State

variable {n : ℕ} (s : State n)

def move (i : Fin n) (phase : Phase) : State n :=
  { s with threads := Function.update s.threads i phase }

/-- `discoverService` returns. -/
def giveBack (i : Fin n) (purpose : Purpose) (serviceName : Bytes)
    (endpoints : List CachedEndpoint) (hit : Bool) : State n :=
  { s.move i (.returned purpose serviceName endpoints) with
    discovered := ⟨serviceName, endpoints, s.registry.now, hit⟩ :: s.discovered }

/-- What was received is read, from a registry that is like this afterwards. -/
def received (i : Fin n) (purpose : Purpose) (serviceName : Bytes) (registry : Serving.State) :
    Except Bytes (List ServiceEndpoint) → State n
  | .ok endpoints =>
      { s.move i (.reading purpose serviceName endpoints) with
        registry := registry
        answers := ⟨serviceName, endpoints, registry.now, registry.swept⟩ :: s.answers }
  | .error _ => { s.giveBack i purpose serviceName [] false with registry := registry }

/-- A call is over, with data or without. -/
def callOver (i : Fin n) (result : Bytes) : State n :=
  { s.move i .outside with
    client :=
      if result ≠ [] then { s.client with successfulCalls := s.client.successfulCalls + 1 }
      else { s.client with failedCalls := s.client.failedCalls + 1 } }

/-- `getStats`, without the times and the connections. -/
def getStats : RpcClient.Stats where
  totalCalls := UInt64.ofNat s.client.totalCalls
  successfulCalls := UInt64.ofNat s.client.successfulCalls
  failedCalls := UInt64.ofNat s.client.failedCalls
  cacheHits := UInt64.ofNat s.cacheHits
  cacheMisses := UInt64.ofNat s.cacheMisses

end State

section Step

variable {n : ℕ} (ttl retryCount : ℤ) (s : State n)

/-- One section of a thread, or one step of the registry. -/
def step : Action n → Option (State n)
  | .call i serviceName =>
      match s.threads i with
      | .outside =>
          some
            { s.move i (.checking .call serviceName) with
              client := { s.client with totalCalls := s.client.totalCalls + 1 }
              started := s.started + 1 }
      | _ => none
  | .warmup i serviceName =>
      match s.threads i with
      | .outside =>
          some { s.move i (.checking .warmup serviceName) with started := s.started + 1 }
      | _ => none
  | .check i =>
      match s.threads i with
      | .checking purpose serviceName =>
          match lookupCache s.cache ttl s.registry.now serviceName with
          | some endpoints =>
              some
                { s.giveBack i purpose serviceName endpoints true with
                  cacheHits := s.cacheHits + 1 }
          | none => some (s.move i (.missed purpose serviceName))
      | _ => none
  | .miss i =>
      match s.threads i with
      | .missed purpose serviceName =>
          some
            { s.move i (.asking purpose serviceName) with cacheMisses := s.cacheMisses + 1 }
      | _ => none
  | .answer i =>
      match s.threads i with
      | .asking purpose serviceName =>
          some
            (s.received i purpose serviceName (asked s.registry serviceName).1
              (Caching.answer s.registry serviceName))
      | _ => none
  | .fail i =>
      match s.threads i with
      | .asking purpose serviceName => some (s.giveBack i purpose serviceName [] false)
      | _ => none
  | .read i =>
      match s.threads i with
      | .reading purpose serviceName [] => some (s.giveBack i purpose serviceName [] false)
      | .reading purpose serviceName endpoints =>
          some (s.move i (.storing purpose serviceName (stamp s.registry.now endpoints)))
      | _ => none
  | .store i =>
      match s.threads i with
      | .storing purpose serviceName endpoints =>
          some
            { s.giveBack i purpose serviceName endpoints false with
              cache := Function.update s.cache serviceName endpoints }
      | _ => none
  | .proceed i =>
      match s.threads i with
      | .returned .warmup _ _ => some (s.move i .outside)
      | .returned .call serviceName endpoints =>
          match s.client.selectEndpoint (endpoints.map CachedEndpoint.endpoint) with
          | none =>
              some
                { s.move i .outside with
                  client := { s.client with failedCalls := s.client.failedCalls + 1 } }
          | some (endpoint, client) =>
              some { s.move i (.calling serviceName endpoint) with client := client }
      | _ => none
  | .finish i attempts =>
      match s.threads i with
      | .calling _ _ =>
          some (s.callOver i (callWithRetry retryCount fun k => attempts.getD k {}).1)
      | _ => none
  | .registry action =>
      (Serving.step s.registry action).map fun registry => { s with registry := registry }

end Step

end Caching

/-- The threads of a client that caches endpoints for `ttl`, and the registry. -/
def caching (ttl retryCount : ℤ) (n : ℕ) : System (Caching.State n) (Caching.Action n) where
  init := {}
  step := Caching.step ttl retryCount

namespace Caching

open RpcClient

variable {n : ℕ} {ttl retryCount : ℤ} {s t : State n}

/-! ### The counters -/

/-- The thread is in a call. -/
def Phase.inCall : Phase → Bool
  | .checking .call _ => true
  | .missed .call _ => true
  | .asking .call _ => true
  | .reading .call _ _ => true
  | .storing .call _ _ => true
  | .returned .call _ _ => true
  | .calling _ _ => true
  | _ => false

/-- The thread has begun a discovery that is not counted yet. -/
def Phase.uncounted : Phase → Bool
  | .checking _ _ => true
  | .missed _ _ => true
  | _ => false

/-- The thread has counted a miss, and waits for the answer. -/
def Phase.waiting : Phase → Bool
  | .asking _ _ => true
  | _ => false

/-- What the counters say of the calls and the discoveries that have come to an end, with
those on their way. -/
structure Accounted (s : State n) : Prop where
  calls : s.client.totalCalls =
    s.client.successfulCalls + s.client.failedCalls + census s.threads Phase.inCall
  discoveries : s.started = s.cacheHits + s.cacheMisses + census s.threads Phase.uncounted
  answers : s.answers.length + census s.threads Phase.waiting ≤ s.cacheMisses
  hits : (s.discovered.filter Discovered.hit).length = s.cacheHits

/-- The same of what `getStats` returns. -/
structure StatsAddUp (s : State n) : Prop where
  calls : s.getStats.totalCalls = s.getStats.successfulCalls + s.getStats.failedCalls +
    UInt64.ofNat (census s.threads Phase.inCall)
  discoveries : UInt64.ofNat s.started = s.getStats.cacheHits + s.getStats.cacheMisses +
    UInt64.ofNat (census s.threads Phase.uncounted)
  hits : UInt64.ofNat (s.discovered.filter Discovered.hit).length = s.getStats.cacheHits

theorem Accounted.statsAddUp (h : Accounted s) : StatsAddUp s where
  calls := by
    rw [State.getStats, ← UInt64.ofNat_add, ← UInt64.ofNat_add, h.calls]
  discoveries := by
    rw [State.getStats, ← UInt64.ofNat_add, ← UInt64.ofNat_add, h.discoveries]
  hits := congrArg UInt64.ofNat h.hits

/-- **One thread moves**: its old place and its new one account for what the counters go up. -/
theorem Accounted.move (hs : Accounted s) (i : Fin n) : ∀ {x : Phase},
    t.threads = Function.update s.threads i x →
    t.client.totalCalls + s.client.successfulCalls + s.client.failedCalls +
        (s.threads i).inCall.toNat =
      s.client.totalCalls + t.client.successfulCalls + t.client.failedCalls +
        x.inCall.toNat →
    t.started + s.cacheHits + s.cacheMisses + (s.threads i).uncounted.toNat =
      s.started + t.cacheHits + t.cacheMisses + x.uncounted.toNat →
    t.answers.length + s.cacheMisses + x.waiting.toNat ≤
      s.answers.length + t.cacheMisses + (s.threads i).waiting.toNat →
    (t.discovered.filter Discovered.hit).length + s.cacheHits =
      (s.discovered.filter Discovered.hit).length + t.cacheHits → Accounted t := by
  intro x hthreads hcalls hdiscoveries hanswers hhits
  have hin := census_update s.threads Phase.inCall i x
  have huncounted := census_update s.threads Phase.uncounted i x
  have hwaiting := census_update s.threads Phase.waiting i x
  obtain ⟨h₁, h₂, h₃, h₄⟩ := hs
  refine ⟨?_, ?_, ?_, ?_⟩
  · rw [hthreads]
    omega
  · rw [hthreads]
    omega
  · rw [hthreads]
    omega
  · omega

/-- Choosing an endpoint counts no call. -/
theorem selectEndpoint_totalCalls {client client' : RpcClient} {endpoints : List ServiceEndpoint}
    {endpoint : ServiceEndpoint} (h : client.selectEndpoint endpoints = some (endpoint, client')) :
    client'.totalCalls = client.totalCalls := by
  match endpoints with
  | [] => cases h
  | [_] =>
    obtain ⟨-, rfl⟩ := Prod.mk.inj (Option.some.inj h)
    rfl
  | _ :: _ :: _ =>
    obtain ⟨_, -, heq⟩ := Option.map_eq_some_iff.mp h
    obtain ⟨-, rfl⟩ := Prod.mk.inj heq
    rfl

theorem Accounted.received (hs : Accounted s) {i : Fin n} {purpose : Purpose}
    {serviceName : Bytes} (hphase : s.threads i = .asking purpose serviceName)
    (registry : Serving.State) (read : Except Bytes (List ServiceEndpoint)) :
    Accounted (s.received i purpose serviceName registry read) := by
  cases read with
  | ok endpoints =>
    refine hs.move i (x := .reading purpose serviceName endpoints) rfl ?_ ?_ ?_ rfl
    · cases purpose <;> simp [hphase, Phase.inCall, State.received, State.move]
    · simp [hphase, Phase.uncounted, State.received, State.move]
    · simp only [hphase, Phase.waiting, Bool.toNat_false, Bool.toNat_true, State.received,
        State.move, List.length_cons]
      omega
  | error what =>
    refine hs.move i (x := .returned purpose serviceName []) rfl ?_ ?_ ?_ rfl
    · cases purpose <;> simp [hphase, Phase.inCall, State.received, State.giveBack, State.move]
    · simp [hphase, Phase.uncounted, State.received, State.giveBack, State.move]
    · simp [hphase, Phase.waiting, State.received, State.giveBack, State.move]

theorem Accounted.callOver (hs : Accounted s) {i : Fin n} {serviceName : Bytes}
    {endpoint : RpcClient.ServiceEndpoint} (hphase : s.threads i = .calling serviceName endpoint)
    (result : Bytes) : Accounted (s.callOver i result) := by
  refine hs.move i (x := .outside) rfl ?_ ?_ ?_ rfl
  · simp only [hphase, Phase.inCall, Bool.toNat_false, Bool.toNat_true, State.callOver]
    split
    · simp only
      omega
    · simp only
      omega
  · simp [hphase, Phase.uncounted, State.callOver, State.move]
  · simp [hphase, Phase.waiting, State.callOver, State.move]

theorem accounted_step {a : Action n} (hs : Accounted s) (h : step ttl retryCount s a = some t) :
    Accounted t := by
  cases a with
  | call i serviceName =>
    simp only [step] at h
    split at h
    · next hphase =>
      obtain rfl := Option.some.inj h
      refine hs.move i (x := .checking .call serviceName) rfl ?_ ?_ ?_ rfl
      · simp only [hphase, Phase.inCall, Bool.toNat_false, Bool.toNat_true]
        omega
      · simp only [hphase, Phase.uncounted, Bool.toNat_false, Bool.toNat_true, State.move]
        omega
      · simp [hphase, Phase.waiting, State.move]
    · cases h
  | warmup i serviceName =>
    simp only [step] at h
    split at h
    · next hphase =>
      obtain rfl := Option.some.inj h
      refine hs.move i (x := .checking .warmup serviceName) rfl ?_ ?_ ?_ rfl
      · simp [hphase, Phase.inCall, State.move]
      · simp only [hphase, Phase.uncounted, Bool.toNat_false, Bool.toNat_true, State.move]
        omega
      · simp [hphase, Phase.waiting, State.move]
    · cases h
  | check i =>
    simp only [step] at h
    split at h
    · next purpose serviceName hphase =>
      split at h
      · next endpoints _ =>
        obtain rfl := Option.some.inj h
        refine hs.move i (x := .returned purpose serviceName endpoints) rfl ?_ ?_ ?_ ?_
        · cases purpose <;> simp [hphase, Phase.inCall, State.giveBack, State.move]
        · simp only [hphase, Phase.uncounted, Bool.toNat_false, Bool.toNat_true, State.giveBack,
            State.move]
          omega
        · simp [hphase, Phase.waiting, State.giveBack, State.move]
        · simp only [State.giveBack, List.filter_cons_of_pos, List.length_cons]
          omega
      · obtain rfl := Option.some.inj h
        refine hs.move i (x := .missed purpose serviceName) rfl ?_ ?_ ?_ rfl
        · cases purpose <;> simp [hphase, Phase.inCall, State.move]
        · simp [hphase, Phase.uncounted, State.move]
        · simp [hphase, Phase.waiting, State.move]
    · cases h
  | miss i =>
    simp only [step] at h
    split at h
    · next purpose serviceName hphase =>
      obtain rfl := Option.some.inj h
      refine hs.move i (x := .asking purpose serviceName) rfl ?_ ?_ ?_ rfl
      · cases purpose <;> simp [hphase, Phase.inCall, State.move]
      · simp only [hphase, Phase.uncounted, Bool.toNat_false, Bool.toNat_true, State.move]
        omega
      · simp only [hphase, Phase.waiting, Bool.toNat_false, Bool.toNat_true, State.move]
        omega
    · cases h
  | answer i =>
    simp only [step] at h
    split at h
    · next purpose serviceName hphase =>
      obtain rfl := Option.some.inj h
      exact hs.received hphase _ _
    · cases h
  | fail i =>
    simp only [step] at h
    split at h
    · next purpose serviceName hphase =>
      obtain rfl := Option.some.inj h
      refine hs.move i (x := .returned purpose serviceName []) rfl ?_ ?_ ?_ rfl
      · cases purpose <;> simp [hphase, Phase.inCall, State.giveBack, State.move]
      · simp [hphase, Phase.uncounted, State.giveBack, State.move]
      · simp [hphase, Phase.waiting, State.giveBack, State.move]
    · cases h
  | read i =>
    simp only [step] at h
    split at h
    · next purpose serviceName hphase =>
      obtain rfl := Option.some.inj h
      refine hs.move i (x := .returned purpose serviceName []) rfl ?_ ?_ ?_ rfl
      · cases purpose <;> simp [hphase, Phase.inCall, State.giveBack, State.move]
      · simp [hphase, Phase.uncounted, State.giveBack, State.move]
      · simp [hphase, Phase.waiting, State.giveBack, State.move]
    · next purpose serviceName endpoints _ hphase =>
      obtain rfl := Option.some.inj h
      refine hs.move i
        (x := .storing purpose serviceName (stamp s.registry.now endpoints)) rfl ?_ ?_ ?_ rfl
      · cases purpose <;> simp [hphase, Phase.inCall, State.move]
      · simp [hphase, Phase.uncounted, State.move]
      · simp [hphase, Phase.waiting, State.move]
    · cases h
  | store i =>
    simp only [step] at h
    split at h
    · next purpose serviceName endpoints hphase =>
      obtain rfl := Option.some.inj h
      refine hs.move i (x := .returned purpose serviceName endpoints) rfl ?_ ?_ ?_ rfl
      · cases purpose <;> simp [hphase, Phase.inCall, State.giveBack, State.move]
      · simp [hphase, Phase.uncounted, State.giveBack, State.move]
      · simp [hphase, Phase.waiting, State.giveBack, State.move]
    · cases h
  | proceed i =>
    simp only [step] at h
    split at h
    · next hphase =>
      obtain rfl := Option.some.inj h
      refine hs.move i (x := .outside) rfl ?_ ?_ ?_ rfl
      · simp [hphase, Phase.inCall, State.move]
      · simp [hphase, Phase.uncounted, State.move]
      · simp [hphase, Phase.waiting, State.move]
    · next serviceName endpoints hphase =>
      split at h
      · obtain rfl := Option.some.inj h
        refine hs.move i (x := .outside) rfl ?_ ?_ ?_ rfl
        · simp only [hphase, Phase.inCall, Bool.toNat_false, Bool.toNat_true]
          omega
        · simp [hphase, Phase.uncounted, State.move]
        · simp [hphase, Phase.waiting, State.move]
      · next endpoint client hselect =>
        obtain rfl := Option.some.inj h
        refine hs.move i (x := .calling serviceName endpoint) rfl ?_ ?_ ?_ rfl
        · obtain ⟨hsuccessful, hfailed⟩ := selectEndpoint_counters hselect
          simp only [hphase, Phase.inCall, selectEndpoint_totalCalls hselect, hsuccessful, hfailed]
        · simp [hphase, Phase.uncounted, State.move]
        · simp [hphase, Phase.waiting, State.move]
    · cases h
  | finish i attempts =>
    simp only [step] at h
    split at h
    · next hphase =>
      obtain rfl := Option.some.inj h
      exact hs.callOver hphase _
    · cases h
  | registry action =>
    obtain ⟨registry, -, rfl⟩ := Option.map_eq_some_iff.mp h
    exact ⟨hs.calls, hs.discoveries, hs.answers, hs.hits⟩

theorem accounted_init : Accounted ({} : State n) := by
  have hnone : ∀ kind : Phase → Bool, kind .outside = false →
      census ({} : State n).threads kind = 0 := fun kind h => census_eq_zero.mpr fun _ => h
  refine ⟨?_, ?_, ?_, rfl⟩
  · rw [hnone _ rfl]
    rfl
  · rw [hnone _ rfl]
    rfl
  · rw [hnone _ rfl]
    exact le_refl 0

/-! ### Where endpoints come from -/

/-- The instances of the answer had been registered, no more than the timeout before the
registry swept its services last. -/
def Answer.Backed (s : State n) (a : Answer) : Prop :=
  a.swept ≤ a.time ∧ a.time ≤ s.registry.now ∧ ∀ e ∈ a.endpoints, ∃ r,
    (e.key a.serviceName, r) ∈ s.registry.registrations ∧ r ≤ a.time ∧
      a.swept - r ≤ heartbeatTimeout

/-- The list was read off an answer about the service, at this time. -/
def Stamped (s : State n) (serviceName : Bytes) (endpoints : List CachedEndpoint)
    (read : ℤ) : Prop :=
  endpoints ≠ [] ∧ ∃ a ∈ s.answers, a.serviceName = serviceName ∧ a.time ≤ read ∧
    endpoints = stamp read a.endpoints

/-- What was returned had been read off an answer, and not longer ago than the cache keeps it. -/
def Discovered.Fresh (ttl : ℤ) (s : State n) (d : Discovered) : Prop :=
  (d.hit = true → d.endpoints ≠ []) ∧ d.time ≤ s.registry.now ∧
    (d.endpoints ≠ [] → ∃ read ≤ d.time, Stamped s d.serviceName d.endpoints read ∧
      (d.hit = true → d.time - read ≤ ttl))

/-- What a thread has in hand. -/
def Phase.Traced (s : State n) : Phase → Prop
  | .reading _ serviceName endpoints =>
      ∃ a ∈ s.answers, a.serviceName = serviceName ∧ a.endpoints = endpoints
  | .storing _ serviceName endpoints =>
      ∃ read ≤ s.registry.now, Stamped s serviceName endpoints read
  | .returned _ serviceName endpoints =>
      ∃ d ∈ s.discovered, d.serviceName = serviceName ∧ d.endpoints = endpoints
  | .calling serviceName endpoint =>
      ∃ d ∈ s.discovered, d.serviceName = serviceName ∧
        endpoint ∈ d.endpoints.map CachedEndpoint.endpoint
  | _ => True

/-- **The invariant**: every list of endpoints can be traced to an answer of the registry. -/
structure Traced (ttl : ℤ) (s : State n) : Prop where
  ledger : Serving.Ledger s.registry
  answers : ∀ a ∈ s.answers, a.Backed s
  threads : ∀ i, (s.threads i).Traced s
  cached : ∀ serviceName, s.cache serviceName ≠ [] → ∃ read ≤ s.registry.now,
    Stamped s serviceName (s.cache serviceName) read
  discovered : ∀ d ∈ s.discovered, d.Fresh ttl s

/-- What the records of one state show, those of a later one show too. -/
structure Later (s t : State n) : Prop where
  answers : ∀ a ∈ s.answers, a ∈ t.answers
  discovered : ∀ d ∈ s.discovered, d ∈ t.discovered
  registrations : ∀ p ∈ s.registry.registrations, p ∈ t.registry.registrations
  now : s.registry.now ≤ t.registry.now

section Later

variable (h : Later s t)
include h

theorem Answer.Backed.later {a : Answer} (ha : a.Backed s) : a.Backed t := by
  obtain ⟨hswept, htime, hall⟩ := ha
  refine ⟨hswept, htime.trans h.now, ?_⟩
  intro e he
  obtain ⟨r, hr, hrest⟩ := hall e he
  exact ⟨r, h.registrations _ hr, hrest⟩

theorem Stamped.later {serviceName : Bytes} {endpoints : List CachedEndpoint} {read : ℤ}
    (hstamped : Stamped s serviceName endpoints read) :
    Stamped t serviceName endpoints read := by
  obtain ⟨hne, a, ha, hrest⟩ := hstamped
  exact ⟨hne, a, h.answers a ha, hrest⟩

theorem Discovered.Fresh.later {d : Discovered} (hd : d.Fresh ttl s) : d.Fresh ttl t := by
  obtain ⟨hhit, htime, hall⟩ := hd
  refine ⟨hhit, htime.trans h.now, ?_⟩
  intro hne
  obtain ⟨read, hread, hstamped, hage⟩ := hall hne
  exact ⟨read, hread, hstamped.later h, hage⟩

theorem Phase.Traced.later {x : Phase} (hx : x.Traced s) : x.Traced t := by
  cases x with
  | outside => trivial
  | checking purpose serviceName => trivial
  | missed purpose serviceName => trivial
  | asking purpose serviceName => trivial
  | reading purpose serviceName endpoints =>
    obtain ⟨a, ha, hrest⟩ := hx
    exact ⟨a, h.answers a ha, hrest⟩
  | storing purpose serviceName endpoints =>
    obtain ⟨read, hread, hstamped⟩ := hx
    exact ⟨read, hread.trans h.now, hstamped.later h⟩
  | returned purpose serviceName endpoints =>
    obtain ⟨d, hd, hrest⟩ := hx
    exact ⟨d, h.discovered d hd, hrest⟩
  | calling serviceName endpoint =>
    obtain ⟨d, hd, hrest⟩ := hx
    exact ⟨d, h.discovered d hd, hrest⟩

/-- **What is new has to be traced**; the rest stays as it was. -/
theorem Traced.later (hs : Traced ttl s) (hledger : Serving.Ledger t.registry)
    (hanswers : ∀ a ∈ t.answers, a ∈ s.answers ∨ a.Backed t)
    (hthreads : ∀ i, t.threads i = s.threads i ∨ (t.threads i).Traced t)
    (hcached : ∀ serviceName, t.cache serviceName = s.cache serviceName ∨
      ∃ read ≤ t.registry.now, Stamped t serviceName (t.cache serviceName) read)
    (hdiscovered : ∀ d ∈ t.discovered, d ∈ s.discovered ∨ d.Fresh ttl t) : Traced ttl t where
  ledger := hledger
  answers a ha := by
    rcases hanswers a ha with hold | hnew
    · exact (hs.answers a hold).later h
    · exact hnew
  threads i := by
    rcases hthreads i with hold | hnew
    · rw [hold]
      exact (hs.threads i).later h
    · exact hnew
  cached serviceName hne := by
    rcases hcached serviceName with hold | hnew
    · rw [hold] at hne ⊢
      obtain ⟨read, hread, hstamped⟩ := hs.cached serviceName hne
      exact ⟨read, hread.trans h.now, hstamped.later h⟩
    · exact hnew
  discovered d hd := by
    rcases hdiscovered d hd with hold | hnew
    · exact (hs.discovered d hold).later h
    · exact hnew

end Later

theorem Traced.thread (hs : Traced ttl s) {i : Fin n} : ∀ {x : Phase}, s.threads i = x →
    x.Traced s := by
  rintro x rfl
  exact hs.threads i

/-- A thread moves on, and leaves no trace. -/
theorem Traced.move (hs : Traced ttl s) {i : Fin n} {x : Phase}
    (hthreads : t.threads = Function.update s.threads i x) (hanswers : t.answers = s.answers)
    (hdiscovered : t.discovered = s.discovered) (hcache : t.cache = s.cache)
    (hregistry : t.registry = s.registry) (hx : x.Traced s) : Traced ttl t := by
  have hlater : Later s t := by
    refine ⟨?_, ?_, ?_, ?_⟩
    · rw [hanswers]
      exact fun _ ha => ha
    · rw [hdiscovered]
      exact fun _ hd => hd
    · rw [hregistry]
      exact fun _ hp => hp
    · rw [hregistry]
  refine hs.later hlater (hregistry ▸ hs.ledger) ?_ ?_ ?_ ?_
  · intro a ha
    exact Or.inl (hanswers ▸ ha)
  · intro j
    rw [hthreads]
    by_cases hj : j = i
    · subst hj
      rw [Function.update_self]
      exact Or.inr (hx.later hlater)
    · exact Or.inl (Function.update_of_ne hj _ _)
  · intro serviceName
    exact Or.inl (congrFun hcache serviceName)
  · intro d hd
    exact Or.inl (hdiscovered ▸ hd)

/-- A thread's discovery is over. -/
theorem Traced.giveBack (hs : Traced ttl s) {i : Fin n} {purpose : Purpose} {d : Discovered}
    (hthreads : t.threads =
      Function.update s.threads i (.returned purpose d.serviceName d.endpoints))
    (hanswers : t.answers = s.answers) (hdiscovered : t.discovered = d :: s.discovered)
    (hcache : ∀ serviceName, t.cache serviceName = s.cache serviceName ∨
      ∃ read ≤ s.registry.now, Stamped s serviceName (t.cache serviceName) read)
    (hregistry : t.registry = s.registry) (hd : d.Fresh ttl s) : Traced ttl t := by
  have hlater : Later s t := by
    refine ⟨?_, ?_, ?_, ?_⟩
    · rw [hanswers]
      exact fun _ ha => ha
    · rw [hdiscovered]
      exact fun _ hd => List.mem_cons_of_mem _ hd
    · rw [hregistry]
      exact fun _ hp => hp
    · rw [hregistry]
  refine hs.later hlater (hregistry ▸ hs.ledger) ?_ ?_ ?_ ?_
  · intro a ha
    exact Or.inl (hanswers ▸ ha)
  · intro j
    rw [hthreads]
    by_cases hj : j = i
    · subst hj
      rw [Function.update_self]
      exact Or.inr ⟨d, hdiscovered ▸ List.mem_cons_self, rfl, rfl⟩
    · exact Or.inl (Function.update_of_ne hj _ _)
  · intro serviceName
    rcases hcache serviceName with hsame | ⟨read, hread, hstamped⟩
    · exact Or.inl hsame
    · exact Or.inr ⟨read, hread.trans hlater.now, hstamped.later hlater⟩
  · intro d' hd'
    rw [hdiscovered] at hd'
    rcases List.mem_cons.mp hd' with rfl | hold
    · exact Or.inr (hd.later hlater)
    · exact Or.inl hold

/-- A discovery that failed returns nothing, and nothing can be wrong with that. -/
theorem fresh_nil (serviceName : Bytes) :
    Discovered.Fresh ttl s ⟨serviceName, [], s.registry.now, false⟩ :=
  ⟨fun h => absurd h Bool.false_ne_true, le_refl _, fun h => absurd rfl h⟩

/-- **An answer names what the registry holds**, if it can be read. -/
theorem Traced.received (hs : Traced ttl s) {i : Fin n} {purpose : Purpose}
    {serviceName : Bytes} {registry : Serving.State}
    {read : Except Bytes (List RpcClient.ServiceEndpoint)} (hregistry : registry = s.registry)
    (hread : ∀ endpoints, read = .ok endpoints → endpoints = s.registry.answer serviceName) :
    Traced ttl (s.received i purpose serviceName registry read) := by
  subst hregistry
  cases read with
  | ok endpoints =>
    have hendpoints := hread endpoints rfl
    have hlater : Later s (s.received i purpose serviceName s.registry (.ok endpoints)) :=
      ⟨fun _ ha => List.mem_cons_of_mem _ ha, fun _ hd => hd, fun _ hp => hp, le_refl _⟩
    refine hs.later hlater hs.ledger ?_ ?_ (fun _ => Or.inl rfl) fun _ hd => Or.inl hd
    · intro a ha
      rcases List.mem_cons.mp ha with rfl | hold
      · refine Or.inr ⟨hs.ledger.swept_le, le_refl _, ?_⟩
        intro e he
        obtain ⟨r, hlatest, hrecent⟩ :=
          (hs.ledger.mem_answer_iff serviceName e).mp (hendpoints ▸ he)
        have hr := Serving.latest_mem hlatest
        exact ⟨r, hr, (hs.ledger.registered _ hr).1, hrecent⟩
      · exact Or.inl hold
    · intro j
      by_cases hj : j = i
      · subst hj
        have hphase : (s.received j purpose serviceName s.registry (.ok endpoints)).threads j =
            .reading purpose serviceName endpoints := Function.update_self _ _ _
        rw [hphase]
        exact Or.inr ⟨_, List.mem_cons_self, rfl, rfl⟩
      · exact Or.inl (Function.update_of_ne hj _ _)
  | error what =>
    exact hs.giveBack (d := ⟨serviceName, [], s.registry.now, false⟩) rfl rfl rfl
      (fun _ => Or.inl rfl) rfl (fresh_nil serviceName)

theorem mem_of_selectEndpoint {client client' : RpcClient}
    {endpoints : List RpcClient.ServiceEndpoint} {endpoint : RpcClient.ServiceEndpoint}
    (h : client.selectEndpoint endpoints = some (endpoint, client')) : endpoint ∈ endpoints := by
  match endpoints with
  | [] => cases h
  | [_] =>
    obtain ⟨rfl, -⟩ := Prod.mk.inj (Option.some.inj h)
    exact List.mem_singleton_self _
  | _ :: _ :: _ =>
    obtain ⟨_, hget, heq⟩ := Option.map_eq_some_iff.mp h
    obtain ⟨rfl, -⟩ := Prod.mk.inj heq
    exact List.mem_of_getElem? hget

/-- What is found in the cache was read no longer ago than its time to live. -/
theorem fresh_lookupCache (hs : Traced ttl s) {serviceName : Bytes}
    {endpoints : List CachedEndpoint}
    (h : lookupCache s.cache ttl s.registry.now serviceName = some endpoints) :
    Discovered.Fresh ttl s ⟨serviceName, endpoints, s.registry.now, true⟩ := by
  unfold lookupCache at h
  cases hcache : s.cache serviceName with
  | nil => simp [hcache] at h
  | cons first rest =>
    obtain ⟨read, hread, hstamped⟩ := hs.cached serviceName (by rw [hcache]; simp)
    rw [hcache] at h hstamped
    obtain ⟨hexpired, heq⟩ := Option.ite_none_left_eq_some.mp h
    obtain rfl := Option.some.inj heq
    refine ⟨fun _ => by simp, le_refl _, fun _ => ⟨read, hread, hstamped, fun _ => ?_⟩⟩
    -- the first of the list shows when all of them were read
    obtain ⟨-, a, -, -, -, hstamp⟩ := hstamped
    have hfirst : first ∈ stamp read a.endpoints := hstamp ▸ List.mem_cons_self
    obtain ⟨e, -, rfl⟩ := List.mem_map.mp hfirst
    exact not_lt.mp hexpired

theorem later_registry {action : Serving.Action} {registry : Serving.State}
    (h : Serving.step s.registry action = some registry) :
    Later s { s with registry := registry } := by
  refine ⟨fun _ ha => ha, fun _ hd => hd, ?_, ?_⟩
  · cases action with
    | handle data =>
      obtain rfl := Option.some.inj h
      exact fun _ hp => List.mem_append_right _ hp
    | checkHeartbeat =>
      obtain rfl := Option.some.inj h
      exact fun _ hp => hp
    | pass time =>
      obtain ⟨-, heq⟩ := Option.ite_none_right_eq_some.mp h
      obtain rfl := Option.some.inj heq
      exact fun _ hp => hp
  · cases action with
    | handle data =>
      obtain rfl := Option.some.inj h
      exact le_refl _
    | checkHeartbeat =>
      obtain rfl := Option.some.inj h
      exact le_refl _
    | pass time =>
      obtain ⟨-, heq⟩ := Option.ite_none_right_eq_some.mp h
      obtain rfl := Option.some.inj heq
      show s.registry.now ≤ s.registry.now + time
      omega

theorem traced_step {a : Action n} (hs : Traced ttl s) (h : step ttl retryCount s a = some t) :
    Traced ttl t := by
  cases a with
  | call i serviceName =>
    simp only [step] at h
    split at h
    · obtain rfl := Option.some.inj h
      exact hs.move (x := .checking .call serviceName) rfl rfl rfl rfl rfl trivial
    · cases h
  | warmup i serviceName =>
    simp only [step] at h
    split at h
    · obtain rfl := Option.some.inj h
      exact hs.move (x := .checking .warmup serviceName) rfl rfl rfl rfl rfl trivial
    · cases h
  | check i =>
    simp only [step] at h
    split at h
    · next purpose serviceName _ =>
      split at h
      · next endpoints hlookup =>
        obtain rfl := Option.some.inj h
        exact hs.giveBack (d := ⟨serviceName, endpoints, s.registry.now, true⟩) rfl rfl rfl
          (fun _ => Or.inl rfl) rfl (fresh_lookupCache hs hlookup)
      · obtain rfl := Option.some.inj h
        exact hs.move (x := .missed purpose serviceName) rfl rfl rfl rfl rfl trivial
    · cases h
  | miss i =>
    simp only [step] at h
    split at h
    · next purpose serviceName _ =>
      obtain rfl := Option.some.inj h
      exact hs.move (x := .asking purpose serviceName) rfl rfl rfl rfl rfl trivial
    · cases h
  | answer i =>
    simp only [step] at h
    split at h
    · next purpose serviceName _ =>
      obtain rfl := Option.some.inj h
      exact hs.received (asked_fst s.registry serviceName) fun endpoints hread =>
        readEndpoints_answer hs.ledger.listed hread
    · cases h
  | fail i =>
    simp only [step] at h
    split at h
    · next purpose serviceName _ =>
      obtain rfl := Option.some.inj h
      exact hs.giveBack (d := ⟨serviceName, [], s.registry.now, false⟩) rfl rfl rfl
        (fun _ => Or.inl rfl) rfl (fresh_nil serviceName)
    · cases h
  | read i =>
    simp only [step] at h
    split at h
    · next purpose serviceName _ =>
      obtain rfl := Option.some.inj h
      exact hs.giveBack (d := ⟨serviceName, [], s.registry.now, false⟩) rfl rfl rfl
        (fun _ => Or.inl rfl) rfl (fresh_nil serviceName)
    · next purpose serviceName endpoints hne hphase =>
      obtain rfl := Option.some.inj h
      obtain ⟨a, ha, hname, hendpoints⟩ : ∃ a ∈ s.answers, a.serviceName = serviceName ∧
          a.endpoints = endpoints := hs.thread hphase
      have hstamp : stamp s.registry.now endpoints ≠ [] := by
        intro hnil
        exact hne (List.map_eq_nil_iff.mp hnil)
      refine hs.move (x := .storing purpose serviceName (stamp s.registry.now endpoints))
        rfl rfl rfl rfl rfl ⟨s.registry.now, le_refl _, hstamp, a, ha, hname, ?_, ?_⟩
      · exact (hs.answers a ha).2.1
      · rw [hendpoints]
    · cases h
  | store i =>
    simp only [step] at h
    split at h
    · next purpose serviceName endpoints hphase =>
      obtain rfl := Option.some.inj h
      obtain ⟨read, hread, hstamped⟩ : ∃ read ≤ s.registry.now,
          Stamped s serviceName endpoints read := hs.thread hphase
      refine hs.giveBack (d := ⟨serviceName, endpoints, s.registry.now, false⟩) rfl rfl rfl ?_ rfl
        ⟨fun hhit => absurd hhit Bool.false_ne_true, le_refl _,
          fun _ => ⟨read, hread, hstamped, fun hhit => absurd hhit Bool.false_ne_true⟩⟩
      intro name
      show Function.update s.cache serviceName endpoints name = _ ∨
        ∃ read ≤ s.registry.now,
          Stamped s name (Function.update s.cache serviceName endpoints name) read
      by_cases hname : name = serviceName
      · subst hname
        rw [Function.update_self]
        exact Or.inr ⟨read, hread, hstamped⟩
      · exact Or.inl (Function.update_of_ne hname _ _)
    · cases h
  | proceed i =>
    simp only [step] at h
    split at h
    · obtain rfl := Option.some.inj h
      exact hs.move (x := .outside) rfl rfl rfl rfl rfl trivial
    · next serviceName endpoints hphase =>
      split at h
      · obtain rfl := Option.some.inj h
        exact hs.move (x := .outside) rfl rfl rfl rfl rfl trivial
      · next endpoint client hselect =>
        obtain rfl := Option.some.inj h
        obtain ⟨d, hd, hname, hendpoints⟩ : ∃ d ∈ s.discovered, d.serviceName = serviceName ∧
            d.endpoints = endpoints := hs.thread hphase
        exact hs.move (x := .calling serviceName endpoint) rfl rfl rfl rfl rfl
          ⟨d, hd, hname, hendpoints ▸ mem_of_selectEndpoint hselect⟩
    · cases h
  | finish i attempts =>
    simp only [step] at h
    split at h
    · obtain rfl := Option.some.inj h
      exact hs.move (x := .outside) rfl rfl rfl rfl rfl trivial
    · cases h
  | registry action =>
    obtain ⟨registry, hstep, rfl⟩ := Option.map_eq_some_iff.mp h
    exact hs.later (later_registry hstep) (Serving.ledger_step hs.ledger hstep)
      (fun _ ha => Or.inl ha) (fun _ => Or.inl rfl) (fun _ => Or.inl rfl) fun _ hd => Or.inl hd

theorem traced_init : Traced ttl ({} : State n) where
  ledger := Serving.ledger_init
  answers _ ha := absurd ha List.not_mem_nil
  threads _ := trivial
  cached _ h := absurd rfl h
  discovered _ hd := absurd hd List.not_mem_nil

end Caching

/-- What was returned was read off an answer about the service, within the time to live if it
was found in the cache; and the instances it names had been registered by the time of the
answer, no more than the timeout before the sweep that came last before it. -/
def Caching.Sourced {n : ℕ} (ttl : ℤ) (s : Caching.State n) (d : Caching.Discovered) : Prop :=
  ∃ a ∈ s.answers, ∃ read, a.serviceName = d.serviceName ∧
    d.endpoints = RpcClient.stamp read a.endpoints ∧
    a.swept ≤ a.time ∧ a.time ≤ read ∧ read ≤ d.time ∧ (d.hit = true → d.time - read ≤ ttl) ∧
    ∀ e ∈ a.endpoints, ∃ r, (e.key d.serviceName, r) ∈ s.registry.registrations ∧
      r ≤ a.time ∧ a.swept - r ≤ heartbeatTimeout

/-- **How old an endpoint can be**, in every interleaving: what a discovery returns, and what a
call tries, has such a source. -/
theorem caching_sourced : ∀ (ttl retryCount : ℤ) (n : ℕ) (as : List (Caching.Action n))
    (t : Caching.State n),
    (caching ttl retryCount n).exec (caching ttl retryCount n).init as = some t →
      (∀ d ∈ t.discovered, d.endpoints ≠ [] → Caching.Sourced ttl t d) ∧
        ∀ i serviceName endpoint, t.threads i = .calling serviceName endpoint →
          ∃ d ∈ t.discovered, d.serviceName = serviceName ∧
            endpoint ∈ d.endpoints.map RpcClient.CachedEndpoint.endpoint ∧
            Caching.Sourced ttl t d := by
  intro ttl retryCount n as t h
  have ht : Caching.Traced ttl t := by
    refine System.exec_invariant ?_ Caching.traced_init h
    intro s a u hs hstep
    exact Caching.traced_step hs hstep
  have hsourced : ∀ d ∈ t.discovered, d.endpoints ≠ [] → Caching.Sourced ttl t d := by
    intro d hd hne
    obtain ⟨-, -, hall⟩ := ht.discovered d hd
    obtain ⟨read, hread, ⟨-, a, ha, hname, htime, hstamp⟩, hage⟩ := hall hne
    obtain ⟨hswept, -, hregistered⟩ := ht.answers a ha
    exact ⟨a, ha, read, hname, hstamp, hswept, htime, hread, hage, hname ▸ hregistered⟩
  refine ⟨hsourced, ?_⟩
  intro i serviceName endpoint hphase
  obtain ⟨d, hd, hname, hmem⟩ := ht.thread hphase
  refine ⟨d, hd, hname, hmem, hsourced d hd ?_⟩
  rintro hnil
  rw [hnil] at hmem
  exact absurd hmem List.not_mem_nil

/-- An instance is registered; one thread finds it and calls; another finds it in the cache. -/
def Caching.sample : List (Caching.Action 2) :=
  [.registry (.handle (ServiceRegisterRequest.codec.encode ClientRequest.sampleRegister)),
    .call 0 ClientRequest.sampleRegister.serviceName, .check 0, .miss 0, .answer 0, .read 0,
    .store 0, .proceed 0, .call 1 ClientRequest.sampleRegister.serviceName,
    .registry (.pass 5), .check 1]

theorem caching_sourced_sample : ∃ t,
    (caching 60 3 2).exec (caching 60 3 2).init Caching.sample = some t ∧
      (∃ e, t.threads 0 = .calling ClientRequest.sampleRegister.serviceName e) ∧
        ∃ d ∈ t.discovered, d.hit = true ∧ Caching.Sourced 60 t d := by
  obtain ⟨t, ht, htest⟩ := (caching 60 3 2).exists_exec_of_any (caching 60 3 2).init
    Caching.sample
    (fun t => (match t.threads 0 with
      | .calling serviceName _ => decide (serviceName = ClientRequest.sampleRegister.serviceName)
      | _ => false) && t.discovered.any fun d => d.hit && decide (d.endpoints ≠ []))
    (by decide +kernel)
  obtain ⟨hcalling, hdiscovered⟩ := Bool.and_eq_true_iff.mp htest
  obtain ⟨d, hd, hboth⟩ := List.any_eq_true.mp hdiscovered
  obtain ⟨hhit, hne⟩ := Bool.and_eq_true_iff.mp hboth
  refine ⟨t, ht, ?_, d, hd, hhit, (caching_sourced 60 3 2 _ t ht).1 d hd (of_decide_eq_true hne)⟩
  cases hphase : t.threads 0 with
  | calling serviceName e =>
    rw [hphase] at hcalling
    exact ⟨e, by rw [of_decide_eq_true hcalling]⟩
  | _ =>
    rw [hphase] at hcalling
    exact absurd hcalling Bool.false_ne_true
