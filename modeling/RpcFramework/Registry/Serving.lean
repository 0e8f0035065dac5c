import RpcFramework.Client.Discovery

/-!
# The stand-alone registry at work

Clients connect to the registry and send it whatever they like; its checker thread sweeps the
services now and then; and time passes.  What is left of all this, for an instance, is the
time of its latest registration and the time of the latest sweep: the instance is listed if
the first is no more than the timeout before the second.

A heartbeat has the bytes of a registration, and is handled as one.

## Main definitions

* `Serving.State`, `Serving.step` — the system `serving`: the registry, a clock, and a record of
  registrations and sweeps.
* `Serving.State.latest` — when an instance was registered last.
* `Serving.Ledger` — the invariant: what the registry holds can be told from the record.

## Main results

* `Serving.ledger_step` — the invariant is kept, whatever bytes come in.
* `serving_lists_iff` — **exactly what a discovery answers**, in every run.
-/

open Rpc Discovery

namespace Serving

structure State where
  registry : RegistryServer := {}
  /-- What the clock shows, in nanoseconds. -/
  now : ℤ := 0
  /-- The time of the latest sweep; at the start nothing is there to be swept. -/
  swept : ℤ := 0
  /-- The registrations the registry has handled, the latest first.  No step reads them. -/
  registrations : List (InstanceKey × ℤ) := []

inductive Action where
  /-- The handler of a connection receives a message. -/
  | handle (data : Bytes)
  | checkHeartbeat
  | pass (time : ℕ)
  deriving DecidableEq, Repr

/-- The registration a message is taken for, if it is. -/
def registration (data : Bytes) : Option InstanceKey :=
  match RegistryServer.dispatch data with
  | some (.serviceRegister request) => some request.key
  | _ => none

namespace State

/-- A message is handled: what is sent in answer, and what becomes of the registry. -/
def handle (s : State) (data : Bytes) : State × Option Bytes :=
  let (registry, response) := s.registry.handleConnection data s.now
  ({ s with
      registry := registry
      registrations := (registration data).toList.map (fun x => (x, s.now)) ++ s.registrations },
    response)

def checkHeartbeat (s : State) : State :=
  { s with registry := s.registry.checkHeartbeat s.now, swept := s.now }

/-- When the instance was registered last. -/
def latest (s : State) (x : InstanceKey) : Option ℤ :=
  (s.registrations.find? fun p => p.1 = x).map Prod.snd

/-- What a discovery of the service would be answered. -/
def answer (s : State) (serviceName : Bytes) : List RpcClient.ServiceEndpoint :=
  RpcClient.endpoints (s.registry.handleServiceDiscovery { serviceName := serviceName })

/-- The registry's services, as the state machine's. -/
def machine (s : State) : RegistryStateMachine := ⟨s.registry.services⟩

end State

/-- One step; the clock shows no more than an `int64_t` of nanoseconds. -/
def step (s : State) : Action → Option State
  | .handle data => some (s.handle data).1
  | .checkHeartbeat => some s.checkHeartbeat
  | .pass time => if Reading (s.now + time) then some { s with now := s.now + time } else none

end Serving

/-- The registry, from its start. -/
def serving : System Serving.State Serving.Action where
  init := {}
  step := Serving.step

/-- The instance at an endpoint of a service. -/
def RpcClient.ServiceEndpoint.key (e : RpcClient.ServiceEndpoint) (serviceName : Bytes) :
    InstanceKey :=
  ⟨serviceName, e.host, e.port⟩

namespace Serving

/-! ### The record -/

/-- What the registry holds can be told from the record: an instance is there, with the time of
its latest registration, if that is no more than the timeout before the latest sweep. -/
structure Ledger (s : State) : Prop where
  listed : Listed s.registry
  wellformed : s.machine.Wellformed
  held : ∀ x, s.machine.lastHeartbeat x =
    (s.latest x).filter fun r => s.swept - r ≤ heartbeatTimeout
  swept_le : s.swept ≤ s.now
  registered : ∀ p ∈ s.registrations, p.2 ≤ s.now ∧ p.1.host ≠ [] ∧ 0 < p.1.port
  reading : Reading s.now

section Ledger

variable {s t : State}

theorem latest_mem : ∀ {x : InstanceKey} {r : ℤ}, s.latest x = some r →
    (x, r) ∈ s.registrations := by
  intro x r h
  obtain ⟨p, hp, rfl⟩ := Option.map_eq_some_iff.mp h
  have hkey : p.1 = x := by simpa using List.find?_some hp
  rw [← hkey]
  exact List.mem_of_find?_eq_some hp

/-- What a message does to the record. -/
theorem latest_handle (s : State) (data : Bytes) (x : InstanceKey) :
    (s.handle data).1.latest x =
      if registration data = some x then some s.now else s.latest x := by
  unfold State.latest State.handle
  cases hreg : registration data with
  | none => simp
  | some y =>
    by_cases hyx : y = x
    · simp [hyx]
    · simp [hyx]

/-- What a message does to the services: it registers, or does nothing. -/
theorem machine_handle (s : State) (data : Bytes) :
    (s.handle data).1.machine =
      match registration data with
      | some x => s.machine.registerService x.serviceName x.host x.port s.now
      | none => s.machine := by
  have hcases : ∀ call, RegistryServer.dispatch data = some call →
      (∃ request, call = .serviceRegister request) ∨
        ∃ request, call = .serviceDiscovery request := by
    intro call hcall
    cases call with
    | serviceRegister request => exact Or.inl ⟨request, rfl⟩
    | serviceDiscovery request => exact Or.inr ⟨request, rfl⟩
    | heartbeat request =>
      exact absurd hcall (RegistryServer.dispatch_ne_heartbeat data request)
    | clusterStatus => exact absurd hcall (RegistryServer.dispatch_ne_clusterStatus data)
  unfold State.machine State.handle registration RegistryServer.handleConnection
  cases hdispatch : RegistryServer.dispatch data with
  | none => rfl
  | some call =>
    rcases hcases call hdispatch with ⟨request, rfl⟩ | ⟨request, rfl⟩
    · have hservices := RegistryServer.services_handleServiceRegister (s := s.registry)
        (m := ⟨s.registry.services⟩) rfl request s.now
      exact congrArg RegistryStateMachine.mk hservices
    · rfl

/-- What passes for a registration names a host and a port. -/
theorem registration_valid : ∀ {data : Bytes} {x : InstanceKey}, registration data = some x →
    x.host ≠ [] ∧ 0 < x.port := by
  intro data x h
  unfold registration at h
  cases hcall : RegistryServer.dispatch data with
  | none => simp [hcall] at h
  | some call =>
    cases call with
    | serviceRegister request =>
      have hdist := (DistributedRegistryServer.dispatch_eq_some_iff (by simp)).mpr hcall
      obtain ⟨⟨-, hhost, hport⟩, -⟩ := DistributedRegistryServer.of_dispatch_register hdist
      simp only [hcall, Option.some.injEq] at h
      exact h ▸ ⟨hhost, hport⟩
    | serviceDiscovery request => simp [hcall] at h
    | heartbeat request => simp [hcall] at h
    | clusterStatus => simp [hcall] at h

theorem Ledger.handle (hs : Ledger s) (data : Bytes) : Ledger (s.handle data).1 where
  listed := hs.listed.handleConnection data hs.reading
  wellformed := by
    rw [machine_handle]
    cases registration data with
    | none => exact hs.wellformed
    | some x => exact RegistryStateMachine.wellformed_registerService hs.wellformed _ _ _ _
  held x := by
    rw [latest_handle, machine_handle]
    show _ = Option.filter (fun r => decide (s.swept - r ≤ heartbeatTimeout)) _
    cases hreg : registration data with
    | none => simpa using hs.held x
    | some y =>
      simp only [RegistryStateMachine.lastHeartbeat_registerService, Option.some.injEq]
      by_cases hxy : x = y
      · -- a registration comes after every sweep
        have hrecent : s.swept - s.now ≤ heartbeatTimeout := by
          have := hs.swept_le
          norm_num [heartbeatTimeout]
          omega
        rw [if_pos hxy, if_pos hxy.symm, Option.filter_some, if_pos (decide_eq_true hrecent)]
      · rw [if_neg (fun h => hxy h), if_neg (fun h => hxy h.symm)]
        exact hs.held x
  swept_le := hs.swept_le
  registered p hp := by
    rcases List.mem_append.mp hp with hnew | hold
    · obtain ⟨x, hx, rfl⟩ := List.mem_map.mp hnew
      exact ⟨le_refl _, registration_valid (Option.mem_toList.mp hx)⟩
    · exact hs.registered p hold
  reading := hs.reading

theorem Ledger.checkHeartbeat (hs : Ledger s) : Ledger s.checkHeartbeat := by
  have hmachine : s.checkHeartbeat.machine = s.machine.removeExpiredServices s.now :=
    congrArg RegistryStateMachine.mk
      (RegistryServer.services_checkHeartbeat (m := ⟨s.registry.services⟩) rfl s.now)
  refine ⟨hs.listed.checkHeartbeat s.now, ?_, ?_, le_refl _, hs.registered, hs.reading⟩
  · rw [hmachine]
    exact RegistryStateMachine.wellformed_removeExpiredServices hs.wellformed s.now
  · intro x
    rw [hmachine, RegistryStateMachine.lastHeartbeat_removeExpiredServices x s.now hs.wellformed,
      hs.held, Option.filter_filter]
    show (s.latest x).filter _ = (s.latest x).filter _
    -- what the new sweep leaves, the earlier one left too
    refine congrArg (fun p => (s.latest x).filter p) (funext fun r => ?_)
    have hle := hs.swept_le
    show (decide (s.swept - r ≤ heartbeatTimeout) && decide (s.now - r ≤ heartbeatTimeout)) =
      decide (s.now - r ≤ heartbeatTimeout)
    by_cases hr : s.now - r ≤ heartbeatTimeout
    · have hold : s.swept - r ≤ heartbeatTimeout := by omega
      simp [hr, hold]
    · simp [hr]

/-- **The record is kept**, whatever bytes come in. -/
theorem ledger_step {a : Action} (hs : Ledger s) (h : step s a = some t) : Ledger t := by
  cases a with
  | handle data =>
    obtain rfl := Option.some.inj h
    exact hs.handle data
  | checkHeartbeat =>
    obtain rfl := Option.some.inj h
    exact hs.checkHeartbeat
  | pass time =>
    obtain ⟨hreading, heq⟩ := Option.ite_none_right_eq_some.mp h
    obtain rfl := Option.some.inj heq
    refine ⟨hs.listed, hs.wellformed, hs.held, ?_, ?_, hreading⟩
    · have := hs.swept_le
      simp only
      omega
    · intro p hp
      obtain ⟨hle, hvalid⟩ := hs.registered p hp
      refine ⟨?_, hvalid⟩
      simp only
      omega

theorem ledger_init : Ledger {} where
  listed := RegistryStateMachine.allServices_empty
  wellformed _ := List.nodup_nil
  held _ := rfl
  swept_le := le_refl _
  registered _ hp := absurd hp List.not_mem_nil
  reading := by norm_num [Reading, Wire.InRange]

/-! ### What a discovery answers -/

/-- **Exactly what a discovery answers**: each instance once, and those whose latest registration
is no more than the timeout before the latest sweep. -/
theorem Ledger.mem_answer_iff (hs : Ledger s) (serviceName : Bytes)
    (e : RpcClient.ServiceEndpoint) :
    e ∈ s.answer serviceName ↔
      ∃ r, s.latest (e.key serviceName) = some r ∧ s.swept - r ≤ heartbeatTimeout := by
  have hmem : e ∈ s.answer serviceName ↔
      ∃ info ∈ (DistributedRegistryServer.handleServiceDiscovery s.machine
        { serviceName := (e.key serviceName).serviceName }).services,
        info.host = (e.key serviceName).host ∧ info.port = (e.key serviceName).port := by
    rw [State.answer, RpcClient.endpoints,
      RegistryServer.handleServiceDiscovery_eq (m := s.machine) rfl, List.mem_map]
    constructor
    · rintro ⟨info, hinfo, rfl⟩
      exact ⟨info, hinfo, rfl, rfl⟩
    · rintro ⟨info, hinfo, hhost, hport⟩
      refine ⟨info, hinfo, ?_⟩
      rw [hhost, hport]
      rfl
  rw [hmem, DistributedRegistryServer.mem_handleServiceDiscovery, hs.held,
    Option.isSome_iff_exists]
  constructor
  · rintro ⟨-, r, hr⟩
    obtain ⟨hlatest, hrecent⟩ := Option.filter_eq_some_iff.mp hr
    exact ⟨r, hlatest, of_decide_eq_true hrecent⟩
  · rintro ⟨r, hlatest, hrecent⟩
    exact ⟨(hs.registered _ (latest_mem hlatest)).2, r,
      Option.filter_eq_some_iff.mpr ⟨hlatest, decide_eq_true hrecent⟩⟩

/-- No instance is listed twice. -/
theorem Ledger.nodup_answer (hs : Ledger s) (serviceName : Bytes) :
    (s.answer serviceName).Nodup := by
  have haddresses := hs.wellformed serviceName
  have hanswer : (s.answer serviceName).map (fun e => (e.host, e.port)) =
      ((s.machine.getServiceInstances serviceName).filter fun i =>
        i.host ≠ [] ∧ 0 < i.port).map fun i => (i.host, i.port) := by
    rw [State.answer, RpcClient.endpoints,
      RegistryServer.handleServiceDiscovery_eq (m := s.machine) rfl]
    simp only [DistributedRegistryServer.handleServiceDiscovery, List.map_map]
    rfl
  refine List.Nodup.of_map (fun e => (e.host, e.port)) ?_
  rw [hanswer]
  exact RegistryStateMachine.distinct_filter haddresses _

end Ledger

end Serving

/-- **Exactly what a discovery answers**: whatever bytes the registry was sent, and whenever it
swept, each instance of the service is listed once, and one is listed just if its latest
registration is no more than the timeout before the latest sweep. -/
theorem serving_lists_iff : ∀ (as : List Serving.Action) (t : Serving.State),
    serving.exec serving.init as = some t → ∀ serviceName : Bytes,
      (t.answer serviceName).Nodup ∧ ∀ e, e ∈ t.answer serviceName ↔
        ∃ r, t.latest (e.key serviceName) = some r ∧ t.swept - r ≤ heartbeatTimeout := by
  intro as t h serviceName
  have ht : Serving.Ledger t := by
    refine System.exec_invariant ?_ Serving.ledger_init h
    intro s a u hs hst
    exact Serving.ledger_step hs hst
  exact ⟨ht.nodup_answer serviceName, ht.mem_answer_iff serviceName⟩

/-- A registration, and a sweep some time after it. -/
def Serving.sample (time : ℕ) : List Serving.Action :=
  [.handle (ServiceRegisterRequest.codec.encode ClientRequest.sampleRegister), .pass time,
    .checkHeartbeat]

theorem serving_lists_sample : ∃ t, serving.exec serving.init (Serving.sample (10 ^ 10)) = some t ∧
    t.registrations.length = 1 ∧ (t.answer ClientRequest.sampleRegister.serviceName).Nodup ∧
      ∀ e, e ∈ t.answer ClientRequest.sampleRegister.serviceName ↔
        ∃ r, t.latest (e.key ClientRequest.sampleRegister.serviceName) = some r ∧
          t.swept - r ≤ heartbeatTimeout := by
  obtain ⟨t, ht, hlen⟩ := serving.exists_exec_of_any serving.init (Serving.sample (10 ^ 10))
    (fun t => decide (t.registrations.length = 1)) (by decide +kernel)
  exact ⟨t, ht, of_decide_eq_true hlen, serving_lists_iff _ t ht _⟩
