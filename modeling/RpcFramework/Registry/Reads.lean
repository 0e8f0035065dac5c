import RpcFramework.Raft.Election
import RpcFramework.Registry.Dispatch
import RpcFramework.Registry.History

/-!
# Reads of the distributed registry

Every node answers discoveries from its own state machine, whatever the others hold.  A
registration gets there in three steps: the leader answers it with success once its own
log has the entry, the entry is committed, and the applier of each node passes it to the
node's machine.  A discovery may come in between.

The machines are run beside the cluster: what `applyCommittedEntries` takes from the log
is handed to the machine entry by entry, so that discoveries and sweeps may come between
two entries as well.

## Main definitions

* `DistributedRegistryServer.handleServiceDiscovery` — the handler of a discovery.
* `DistributedRegistry`, `DistributedRegistry.step` — the system `distributedRegistry`.
* `InstanceKey.Undisturbed` — neither unregistered nor expired since it was registered.
* `ReadsSeeWrites` — what was registered is found, at any node.

## Main results

* `DistributedRegistryServer.effect_registerEntry` — the entry of a registration registers.
* `distributedRegistry_finds_iff` — **when a registration is found.**
-/

open Rpc Wire

/-! ### Discoveries -/

/-- The instance a registration is about. -/
def Rpc.ServiceRegisterRequest.key (request : ServiceRegisterRequest) : InstanceKey :=
  ⟨request.serviceName, request.host, request.port⟩

namespace DistributedRegistryServer

/-- What the response says of an instance; its heartbeat is cast to milliseconds. -/
def serviceInfo (i : ServiceInstance) : ServiceInfo where
  host := i.host
  port := i.port
  lastHeartbeat := i.lastHeartbeat.tdiv (10 ^ 6)

def handleServiceDiscovery (m : RegistryStateMachine) (request : ServiceDiscoveryRequest) :
    ServiceDiscoveryResponse where
  services :=
    ((m.getServiceInstances request.serviceName).filter fun i =>
      i.host ≠ [] ∧ 0 < i.port).map serviceInfo

/-- The response names the addresses of the service that the machine holds, as far as they
could have been registered. -/
theorem mem_handleServiceDiscovery (m : RegistryStateMachine) (x : InstanceKey) :
    (∃ info ∈ (handleServiceDiscovery m { serviceName := x.serviceName }).services,
        info.host = x.host ∧ info.port = x.port) ↔
      (x.host ≠ [] ∧ 0 < x.port) ∧ (m.lastHeartbeat x).isSome := by
  rw [← RegistryStateMachine.mem_getServiceInstances]
  simp only [handleServiceDiscovery, List.mem_map, List.mem_filter, decide_eq_true_eq]
  constructor
  · rintro ⟨info, ⟨i, ⟨hi, hvalid⟩, rfl⟩, hhost, hport⟩
    refine ⟨?_, i, hi, Prod.ext hhost hport⟩
    rw [← hhost, ← hport]
    exact hvalid
  · rintro ⟨hvalid, i, hi, haddr⟩
    obtain ⟨hhost, hport⟩ := Prod.mk.inj haddr
    refine ⟨_, ⟨i, ⟨hi, ?_⟩, rfl⟩, hhost, hport⟩
    rw [hhost, hport]
    exact hvalid

/-- The handler of registrations is given what could have been written and passes the
test. -/
theorem of_dispatch_register {data : Bytes} {request : ServiceRegisterRequest}
    (h : dispatch data = some (.serviceRegister request)) :
    request.Valid ∧ request.Readable data.length := by
  unfold dispatch at h
  split at h
  · simp at h
  · cases hparse : parseIf ServiceRegisterRequest.codec ServiceRegisterRequest.Valid data with
    | some r =>
      simp only [hparse, Option.some.injEq, ClientCall.serviceRegister.injEq] at h
      subst h
      obtain ⟨hread, hvalid⟩ := Option.filter_eq_some_iff.mp hparse
      exact ⟨of_decide_eq_true hvalid, ServiceRegisterRequest.readable_of_decode hread⟩
    | none =>
      simp only [hparse] at h
      split at h
      · simp at h
      · split at h
        · simp at h
        · obtain ⟨_, -, heq⟩ := Option.map_eq_some_iff.mp h
          simp at heq

/-- **The entry of a registration registers**, when it is applied. -/
theorem effect_registerEntry (n : RaftNode) {request : ServiceRegisterRequest} {data : Bytes}
    {timestamp : ℤ} (hread : request.Readable data.length) (hpass : TcpConnection.Passes data)
    (htime : InRange 64 timestamp) :
    request.key.effect (registerEntry n request timestamp) = some .register := by
  let operation : ServiceOperation :=
    { operationType := utf8 "register", serviceName := request.serviceName,
      host := request.host, port := request.port, timestamp := timestamp }
  have hlen : (ServiceOperation.codec.encode operation).length ≤ maxLength := by
    have hle := operation.length_encode_le
    have htype : operation.operationType.length = 8 :=
      show (utf8 "register").length = 8 by decide
    have hname : operation.serviceName.length ≤ data.length := hread.length_serviceName
    have hhost : operation.host.length ≤ data.length := hread.length_host
    have hdata := hpass.2
    rw [TcpConnection.maxMessage] at hdata
    rw [maxLength]
    omega
  have htext : validUtf8 (utf8 "register") = true := by decide
  have hdecode : ServiceOperation.codec.decode (ServiceOperation.codec.encode operation) =
      some operation :=
    ServiceOperation.decode_encode (ServiceOperation.typed_iff.mpr ⟨hread.port, htime⟩)
      (ServiceOperation.text_iff.mpr ⟨htext, hread.serviceName, hread.host⟩) hlen
  have hentry : RegistryStateMachine.serviceOperation (registerEntry n request timestamp) =
      some operation := by
    rw [RegistryStateMachine.serviceOperation]
    exact (if_pos rfl).trans hdecode
  rw [InstanceKey.effect, hentry, Option.bind_some]
  exact if_pos rfl

end DistributedRegistryServer

/-! ### The system -/

/-- A registration that was answered with success, and the entry made of it. -/
structure Registration where
  request : ServiceRegisterRequest
  entry : LogEntry
  deriving DecidableEq, Repr

structure DistributedRegistry where
  cluster : Cluster
  machines : Bytes → RegistryStateMachine := fun _ => {}
  /-- What each machine has been handed and has not applied. -/
  pending : Bytes → List LogEntry := fun _ => []
  /-- What each machine has gone through.  No step reads it. -/
  schedules : Bytes → List LocalEvent := fun _ => []
  /-- The registrations answered with success, the latest first.  No step reads them. -/
  registered : List Registration := []

inductive RegistryAction where
  /-- A step of the cluster, requests of clients apart. -/
  | raft (action : Cluster.Action)
  /-- What `handleClientConnection` receives, while the wall clock shows `timestamp`. -/
  | client (i data : Bytes) (timestamp : ℤ)
  /-- The applier passes an entry to the machine. -/
  | applyEntry (i : Bytes) (now : ℤ)
  /-- A round of `cleanupLoop`. -/
  | cleanup (i : Bytes) (now : ℤ)
  deriving DecidableEq, Repr

/-- The step is the treatment of a client's request. -/
def Cluster.Action.fromClient : Cluster.Action → Bool
  | .operate _ (.serviceRegister ..) => true
  | .operate _ (.heartbeat ..) => true
  | _ => false

namespace DistributedRegistry

/-- What a step of the cluster hands to the machine of node `j`. -/
def handed (s : Cluster) (a : Cluster.Action) (j : Bytes) : List LogEntry :=
  match a with
  | .applyCommitted i => if j = i then (s.nodes i).applyCommittedEntries.2.map Prod.snd else []
  | _ => []

/-- The registration, if it is answered with success. -/
def acknowledged (n : RaftNode) (request : ServiceRegisterRequest) (timestamp : ℤ) :
    List Registration :=
  let (n', response) := DistributedRegistryServer.handleServiceRegister n request timestamp
  if response.success then n'.log.getLast?.toList.map fun entry => ⟨request, entry⟩ else []

/-- The machine of node `i` goes through an event. -/
def machineStep (s : DistributedRegistry) (i : Bytes) (event : LocalEvent) :
    DistributedRegistry :=
  { s with
    machines := Function.update s.machines i ((s.machines i).step event)
    schedules := Function.update s.schedules i (s.schedules i ++ [event]) }

def step (cfg : ClusterConfig) (s : DistributedRegistry) :
    RegistryAction → Option DistributedRegistry
  | .raft a =>
      -- clients have an action of their own
      if a.fromClient then none
      else
        (Cluster.step cfg s.cluster a).map fun cluster =>
          { s with
            cluster := cluster
            pending := fun j => s.pending j ++ handed s.cluster a j }
  | .client i data timestamp =>
      -- what `receive` returns, and what a clock can show
      if TcpConnection.Passes data ∧ InRange 64 timestamp then
        match DistributedRegistryServer.dispatch data with
        | some (.serviceRegister request) =>
            (Cluster.step cfg s.cluster (.operate i (.serviceRegister request timestamp))).map
              fun cluster =>
                { s with
                  cluster := cluster
                  registered :=
                    acknowledged (s.cluster.nodes i) request timestamp ++ s.registered }
        | some (.heartbeat request) =>
            (Cluster.step cfg s.cluster (.operate i (.heartbeat request timestamp))).map
              fun cluster => { s with cluster := cluster }
        -- the other handlers change nothing
        | _ => some s
      else none
  | .applyEntry i now =>
      match s.pending i with
      | [] => none
      | entry :: rest =>
          some
            { s.machineStep i (.apply entry now) with
              pending := Function.update s.pending i rest }
  | .cleanup i now => some (s.machineStep i (.sweep now))

/-- A discovery of the service of the registration, answered by node `i`, finds the
instance. -/
def Finds (s : DistributedRegistry) (i : Bytes) (request : ServiceRegisterRequest) : Prop :=
  ∃ info ∈ (DistributedRegistryServer.handleServiceDiscovery (s.machines i)
      { serviceName := request.serviceName }).services,
    info.host = request.host ∧ info.port = request.port

end DistributedRegistry

/-- The distributed registry, from its start. -/
def distributedRegistry (cfg : ClusterConfig) : System DistributedRegistry RegistryAction where
  init := { cluster := Cluster.start cfg }
  step := DistributedRegistry.step cfg

/-- Since the entry registered the instance in the schedule, the instance was not
unregistered, and no sweep found it without a heartbeat for too long. -/
def InstanceKey.Undisturbed (x : InstanceKey) (entry : LogEntry) (schedule : List LocalEvent) :
    Prop :=
  entry ∈ appliedLog schedule →
    ∃ pre now post, schedule = pre ++ .apply entry now :: post ∧
      (∀ e at', .apply e at' ∈ post → x.effect e ≠ some .unregister) ∧
      ∀ mid at' rest, post = mid ++ .sweep at' :: rest →
        ∀ t, x.lastRefresh (pre ++ .apply entry now :: mid) = some t → at' - t ≤ heartbeatTimeout

/-- **Reads see writes**: an instance whose registration was answered with success is found
by every discovery after that, at any node where it was neither unregistered nor expired. -/
def ReadsSeeWrites (S : System DistributedRegistry RegistryAction) : Prop :=
  ∀ (as : List RegistryAction) (t : DistributedRegistry), S.exec S.init as = some t →
    ∀ (i : Bytes), ∀ r ∈ t.registered, r.request.key.Undisturbed r.entry (t.schedules i) →
      t.Finds i r.request

/-! ### What the record says -/

namespace DistributedRegistry

/-- Each machine is what its schedule made of it, and what was answered with success is a
registration. -/
structure Recorded (s : DistributedRegistry) : Prop where
  machines : ∀ i, s.machines i = RegistryStateMachine.run (s.schedules i)
  registered : ∀ r ∈ s.registered,
    r.request.Valid ∧ r.request.key.effect r.entry = some .register

variable {cfg : ClusterConfig} {s t : DistributedRegistry}

/-- An event of a machine is recorded. -/
theorem Recorded.machineStep (hs : Recorded s) (i : Bytes) (event : LocalEvent) :
    Recorded (s.machineStep i event) where
  machines j := by
    by_cases hj : j = i
    · subst hj
      simp only [DistributedRegistry.machineStep, Function.update_self]
      rw [RegistryStateMachine.run_append, hs.machines]
      rfl
    · simp only [DistributedRegistry.machineStep, Function.update_of_ne hj]
      exact hs.machines j
  registered := hs.registered

/-- What is answered with success is the entry of the registration, by a leader. -/
theorem mem_acknowledged {n : RaftNode} {request : ServiceRegisterRequest} {timestamp : ℤ}
    {r : Registration} (h : r ∈ acknowledged n request timestamp) :
    r = ⟨request, DistributedRegistryServer.registerEntry n request timestamp⟩ := by
  unfold acknowledged at h
  rw [DistributedRegistryServer.handleServiceRegister_eq] at h
  by_cases hrole : n.role = .leader
  · simp only [if_pos hrole, if_true, List.getLast?_append, List.getLast?_singleton,
      Option.some_or, Option.toList_some, List.map_singleton, List.mem_singleton] at h
    exact h
  · simp [if_neg hrole] at h

/-- **One step.** -/
theorem recorded_step (hs : Recorded s) {a : RegistryAction} (h : step cfg s a = some t) :
    Recorded t := by
  cases a with
  | raft a =>
    simp only [step, Option.ite_none_left_eq_some] at h
    obtain ⟨cluster, -, rfl⟩ := Option.map_eq_some_iff.mp h.2
    exact ⟨hs.machines, hs.registered⟩
  | client i data timestamp =>
    simp only [step, Option.ite_none_right_eq_some] at h
    obtain ⟨⟨hpass, htime⟩, h⟩ := h
    split at h
    · next request hdispatch =>
      obtain ⟨cluster, -, rfl⟩ := Option.map_eq_some_iff.mp h
      refine ⟨hs.machines, ?_⟩
      intro r hr
      rcases List.mem_append.mp hr with hnew | hold
      · -- what was received says what the entry holds, and the entry registers it
        obtain ⟨hvalid, hread⟩ := DistributedRegistryServer.of_dispatch_register hdispatch
        rw [mem_acknowledged hnew]
        exact ⟨hvalid, DistributedRegistryServer.effect_registerEntry _ hread hpass htime⟩
      · exact hs.registered r hold
    · obtain ⟨cluster, -, rfl⟩ := Option.map_eq_some_iff.mp h
      exact ⟨hs.machines, hs.registered⟩
    · obtain rfl := Option.some.inj h
      exact hs
  | applyEntry i now =>
    simp only [step] at h
    split at h
    · simp at h
    · next entry rest hpending =>
      have hstep := hs.machineStep i (.apply entry now)
      obtain rfl := Option.some.inj h
      exact ⟨hstep.machines, hstep.registered⟩
  | cleanup i now =>
    obtain rfl := Option.some.inj h
    exact hs.machineStep i (.sweep now)

end DistributedRegistry

/-- An entry that was applied, and what it registered left undisturbed, leaves the instance
listed. -/
theorem InstanceKey.Undisturbed.listed {x : InstanceKey} {entry : LogEntry}
    {schedule : List LocalEvent} (h : x.Undisturbed entry schedule)
    (heffect : x.effect entry = some .register) (happlied : entry ∈ appliedLog schedule) :
    x.Listed schedule := by
  obtain ⟨pre, now, post, hschedule, hun, hfresh⟩ := h happlied
  exact ⟨pre, entry, now, post, hschedule, heffect, hun, hfresh⟩

/-- The schedule lists the instance by this entry: it was applied, it registers the instance, and
since then no entry unregistered it, and no sweep found it without a heartbeat for too long. -/
def InstanceKey.ListedBy (x : InstanceKey) (entry : LogEntry) (schedule : List LocalEvent) :
    Prop :=
  ∃ pre now post, schedule = pre ++ .apply entry now :: post ∧ x.effect entry = some .register ∧
    (∀ e at', .apply e at' ∈ post → x.effect e ≠ some .unregister) ∧
    ∀ mid at' rest, post = mid ++ .sweep at' :: rest →
      ∀ t, x.lastRefresh (pre ++ .apply entry now :: mid) = some t → at' - t ≤ heartbeatTimeout

theorem InstanceKey.ListedBy.listed {x : InstanceKey} {entry : LogEntry}
    {schedule : List LocalEvent} (h : x.ListedBy entry schedule) : x.Listed schedule := by
  obtain ⟨pre, now, post, hschedule, heffect, hun, hfresh⟩ := h
  exact ⟨pre, entry, now, post, hschedule, heffect, hun, hfresh⟩

/-- The instance is listed by an entry that was applied, this one or another. -/
theorem InstanceKey.Listed.by_entry {x : InstanceKey} {schedule : List LocalEvent}
    (h : x.Listed schedule) (entry : LogEntry) :
    entry ∈ appliedLog schedule ∨ ∃ other, other ≠ entry ∧ x.ListedBy other schedule := by
  obtain ⟨pre, other, now, post, hschedule, heffect, hun, hfresh⟩ := h
  by_cases hsame : other = entry
  · left
    rw [hschedule, ← hsame]
    simp [appliedLog]
  · exact Or.inr ⟨other, hsame, pre, now, post, hschedule, heffect, hun, hfresh⟩

/-- **When a registration is found**: a discovery after it was answered with success finds
the instance just if the node that answers has applied the registration, or lists the
instance by another one that it has applied. -/
theorem distributedRegistry_finds_iff (cfg : ClusterConfig) {as : List RegistryAction}
    {t : DistributedRegistry}
    (h : (distributedRegistry cfg).exec (distributedRegistry cfg).init as = some t)
    {r : Registration} (hr : r ∈ t.registered) {i : Bytes}
    (hund : r.request.key.Undisturbed r.entry (t.schedules i)) :
    t.Finds i r.request ↔
      r.entry ∈ appliedLog (t.schedules i) ∨
        ∃ entry, entry ≠ r.entry ∧ r.request.key.ListedBy entry (t.schedules i) := by
  have hrecorded : t.Recorded := by
    refine System.reachable_invariant ?_ (fun s a t hs hst => ?_) h
    · exact ⟨fun _ => rfl, fun r hr => absurd hr List.not_mem_nil⟩
    · exact DistributedRegistry.recorded_step hs hst
  obtain ⟨hvalid, heffect⟩ := hrecorded.registered r hr
  have hlisted : t.Finds i r.request ↔ r.request.key.Listed (t.schedules i) := by
    have hfinds := DistributedRegistryServer.mem_handleServiceDiscovery (t.machines i)
      r.request.key
    have hnamed : r.request.key.host ≠ [] ∧ 0 < r.request.key.port := hvalid.2
    rw [and_iff_right hnamed, hrecorded.machines, InstanceKey.isSome_lastHeartbeat_run,
      ← InstanceKey.listed_iff, ← hrecorded.machines] at hfinds
    exact hfinds
  rw [hlisted]
  constructor
  · intro hlist
    exact hlist.by_entry r.entry
  · rintro (happlied | ⟨entry, -, hby⟩)
    · exact hund.listed heffect happlied
    · exact hby.listed

/-- `A` is elected and answers the registration of an instance with success. -/
def sampleRegistration : List RegistryAction :=
  sampleElection.map .raft ++
    [.client (utf8 "A") (ServiceRegisterRequest.codec.encode ClientRequest.sampleRegister) 0]

/-- Nothing has been applied anywhere, and nothing is found. -/
theorem distributedRegistry_finds_sample :
    ∃ t r, (distributedRegistry sampleCluster).exec (distributedRegistry sampleCluster).init
        sampleRegistration = some t ∧ r ∈ t.registered ∧
      (t.Finds (utf8 "A") r.request ↔
        r.entry ∈ appliedLog (t.schedules (utf8 "A")) ∨
          ∃ entry, entry ≠ r.entry ∧
            r.request.key.ListedBy entry (t.schedules (utf8 "A"))) := by
  obtain ⟨t, ht, htest⟩ := (distributedRegistry sampleCluster).exists_exec_of_any
    (distributedRegistry sampleCluster).init sampleRegistration
    (fun t => t.registered.length == 1 && decide (t.schedules (utf8 "A") = []))
    (by decide +kernel)
  rw [Bool.and_eq_true, beq_iff_eq, decide_eq_true_eq] at htest
  obtain ⟨r, hr⟩ := List.exists_mem_of_length_pos (htest.1 ▸ Nat.one_pos)
  refine ⟨t, r, ht, hr, distributedRegistry_finds_iff sampleCluster ht hr ?_⟩
  rw [htest.2]
  exact fun hmem => absurd hmem List.not_mem_nil

/-- The very node that answered does not find the instance. -/
theorem sampleRegistration_notFound : ¬ ReadsSeeWrites (distributedRegistry sampleCluster) := by
  intro hreads
  obtain ⟨t, ht, htest⟩ := (distributedRegistry sampleCluster).exists_exec_of_any
    (distributedRegistry sampleCluster).init sampleRegistration
    (fun t => (t.registered.length == 1 && decide (t.schedules (utf8 "A") = [])) &&
      t.registered.all fun r =>
        decide ((DistributedRegistryServer.handleServiceDiscovery (t.machines (utf8 "A"))
          { serviceName := r.request.serviceName }).services = []))
    (by decide +kernel)
  rw [Bool.and_eq_true, Bool.and_eq_true, beq_iff_eq, decide_eq_true_eq] at htest
  obtain ⟨⟨hlen, hschedule⟩, hnone⟩ := htest
  obtain ⟨r, hr⟩ := List.exists_mem_of_length_pos (hlen ▸ Nat.one_pos)
  obtain ⟨info, hinfo, -⟩ := hreads _ t ht (utf8 "A") r hr (by
    rw [hschedule]
    exact fun hmem => absurd hmem List.not_mem_nil)
  rw [of_decide_eq_true (List.all_eq_true.mp hnone r hr)] at hinfo
  exact absurd hinfo List.not_mem_nil
