import RpcFramework.Proto.DistributedRegistry
import Mathlib.Data.List.AList
import Mathlib.Data.List.Induction

/-!
# The registry's state machine

Every node of the distributed registry applies the log to a `RegistryStateMachine` of
its own.  Which instances it holds also depends on two things the log does not
record: what the node's own clock showed when it applied an entry, and when its
cleanup thread swept the instances whose last heartbeat was too old.

An instance is known by the name of its service, its host and its port, and what
happens to one does not depend on any other.  So beside the machine stands a model
of a single instance: the time of its last heartbeat while it is registered.

## Main definitions

* `RegistryStateMachine.applyLogEntry`, `RegistryStateMachine.removeExpiredServices`,
  `RegistryStateMachine.getServiceInstances` — the machine.
* `LocalEvent`, `RegistryStateMachine.run` — what one replica goes through.
* `InstanceKey.step` — the model of one instance.

## Main results

* `RegistryStateMachine.wellformed_step` — no service has two instances at one address.
* `RegistryStateMachine.lastHeartbeat_run` — **the machine refines the model.**
-/

open Rpc

structure ServiceInstance where
  host : Bytes
  port : ℤ
  lastHeartbeat : ℤ
  deriving DecidableEq, Repr

/-- The map from service names to instances.  Times are clock readings in
nanoseconds. -/
structure RegistryStateMachine where
  services : AList (fun _ : Bytes => List ServiceInstance) := ∅

/-- The instance is the one at the address. -/
def ServiceInstance.At (host : Bytes) (port : ℤ) (i : ServiceInstance) : Prop :=
  i.host = host ∧ i.port = port

instance (host : Bytes) (port : ℤ) : DecidablePred (ServiceInstance.At host port) :=
  fun _ => inferInstanceAs (Decidable (_ ∧ _))

/-- `std::chrono::seconds(30)`. -/
def heartbeatTimeout : ℤ := 30 * 10 ^ 9

namespace RegistryStateMachine

/-- The loop over a service's instances that stamps the first one at the address, and
finds none otherwise. -/
def stampFirst (host : Bytes) (port now : ℤ) :
    List ServiceInstance → Option (List ServiceInstance)
  | [] => none
  | i :: is =>
      if i.At host port then some ({ i with lastHeartbeat := now } :: is)
      else (stampFirst host port now is).map (i :: ·)

def registerService (m : RegistryStateMachine) (serviceName host : Bytes) (port now : ℤ) :
    RegistryStateMachine :=
  let instances := (m.services.lookup serviceName).getD []
  { services := m.services.insert serviceName
      ((stampFirst host port now instances).getD (instances ++ [⟨host, port, now⟩])) }

def unregisterService (m : RegistryStateMachine) (serviceName host : Bytes) (port : ℤ) :
    RegistryStateMachine :=
  match m.services.lookup serviceName with
  | none => m
  | some instances =>
      let instances := instances.filter fun i => ¬ i.At host port
      if instances = [] then { services := m.services.erase serviceName }
      else { services := m.services.insert serviceName instances }

def updateHeartbeat (m : RegistryStateMachine) (serviceName host : Bytes) (port now : ℤ) :
    RegistryStateMachine :=
  match m.services.lookup serviceName with
  | none => m
  | some instances =>
      match stampFirst host port now instances with
      | none => m
      | some instances => { services := m.services.insert serviceName instances }

def applyServiceOperation (m : RegistryStateMachine) (operation : ServiceOperation) (now : ℤ) :
    RegistryStateMachine :=
  if operation.operationType = utf8 "register" then
    m.registerService operation.serviceName operation.host operation.port now
  else if operation.operationType = utf8 "unregister" then
    m.unregisterService operation.serviceName operation.host operation.port
  else if operation.operationType = utf8 "heartbeat" then
    m.updateHeartbeat operation.serviceName operation.host operation.port now
  else m

/-- The operation an entry carries; any other entry is ignored. -/
def serviceOperation (entry : LogEntry) : Option ServiceOperation :=
  if entry.operation = utf8 "service_operation" then ServiceOperation.codec.decode entry.data
  else none

/-- `applyLogEntry`, when the clock shows `now`. -/
def applyLogEntry (m : RegistryStateMachine) (entry : LogEntry) (now : ℤ) :
    RegistryStateMachine :=
  match serviceOperation entry with
  | none => m
  | some operation => m.applyServiceOperation operation now

/-- The instances of one service that a sweep leaves. -/
def unexpired (now : ℤ) (instances : List ServiceInstance) : List ServiceInstance :=
  instances.filter fun i => now - i.lastHeartbeat ≤ heartbeatTimeout

/-- What a sweep makes of a service: one without instances is erased. -/
def sweepService (now : ℤ) (service : Σ _ : Bytes, List ServiceInstance) :
    Option (Σ _ : Bytes, List ServiceInstance) :=
  if unexpired now service.2 = [] then none else some ⟨service.1, unexpired now service.2⟩

theorem keys_sweep_sublist (now : ℤ) (entries : List (Σ _ : Bytes, List ServiceInstance)) :
    (entries.filterMap (sweepService now)).keys.Sublist entries.keys := by
  induction entries with
  | nil => simp
  | cons service entries ih =>
    rw [List.filterMap_cons, sweepService]
    split
    · next h =>
      split at h
      · exact ih.cons _
      · simp at h
    · next s h =>
      split at h
      · simp at h
      · rw [← Option.some.inj h]
        exact ih.cons_cons _

/-- `removeExpiredServices`, when the clock shows `now`. -/
def removeExpiredServices (m : RegistryStateMachine) (now : ℤ) : RegistryStateMachine where
  services :=
    { entries := m.services.entries.filterMap (sweepService now)
      nodupKeys := (keys_sweep_sublist now _).nodup m.services.nodupKeys }

def getServiceInstances (m : RegistryStateMachine) (serviceName : Bytes) : List ServiceInstance :=
  (m.services.lookup serviceName).getD []

def getServiceCount (m : RegistryStateMachine) : ℕ := m.services.entries.length

/-! ### The instances of a service after each operation -/

section Instances

variable (m : RegistryStateMachine) (serviceName host : Bytes) (port now : ℤ) (name : Bytes)

theorem getServiceInstances_registerService :
    (m.registerService serviceName host port now).getServiceInstances name =
      if name = serviceName then
        (stampFirst host port now (m.getServiceInstances serviceName)).getD
          (m.getServiceInstances serviceName ++ [⟨host, port, now⟩])
      else m.getServiceInstances name := by
  unfold registerService getServiceInstances
  split
  · next h => rw [h, AList.lookup_insert]; rfl
  · next h => rw [AList.lookup_insert_ne h]

theorem getServiceInstances_unregisterService :
    (m.unregisterService serviceName host port).getServiceInstances name =
      if name = serviceName then
        (m.getServiceInstances serviceName).filter fun i => ¬ i.At host port
      else m.getServiceInstances name := by
  unfold unregisterService getServiceInstances
  cases hl : m.services.lookup serviceName with
  | none =>
    by_cases h : name = serviceName
    · subst h
      simp [hl]
    · simp [h]
  | some instances =>
    simp only [Option.getD_some]
    split
    · next hnil =>
      split
      · next h => rw [h, AList.lookup_erase, hnil]; rfl
      · next h => rw [AList.lookup_erase_ne h]
    · split
      · next h => rw [h, AList.lookup_insert]; rfl
      · next h => rw [AList.lookup_insert_ne h]

theorem getServiceInstances_updateHeartbeat :
    (m.updateHeartbeat serviceName host port now).getServiceInstances name =
      if name = serviceName then
        (stampFirst host port now (m.getServiceInstances serviceName)).getD
          (m.getServiceInstances serviceName)
      else m.getServiceInstances name := by
  unfold updateHeartbeat getServiceInstances
  cases hl : m.services.lookup serviceName with
  | none =>
    by_cases h : name = serviceName
    · subst h
      simp [hl, stampFirst]
    · simp [h]
  | some instances =>
    simp only [Option.getD_some]
    cases hs : stampFirst host port now instances with
    | none =>
      by_cases h : name = serviceName
      · subst h
        simp [hl]
      · simp [h]
    | some stamped =>
      by_cases h : name = serviceName
      · subst h
        simp
      · simp [h]

/-- A sweep of the map is a sweep of each service; those left empty are gone. -/
theorem dlookup_sweep {entries : List (Σ _ : Bytes, List ServiceInstance)}
    (hnodup : entries.NodupKeys) :
    ((entries.filterMap (sweepService now)).dlookup name).getD [] =
      unexpired now ((entries.dlookup name).getD []) := by
  induction entries with
  | nil => rfl
  | cons service entries ih =>
    obtain ⟨key, instances⟩ := service
    obtain ⟨hkey, hrest⟩ := List.nodupKeys_cons.mp hnodup
    rw [List.filterMap_cons, sweepService]
    by_cases hname : name = key
    · subst hname
      rw [List.dlookup_cons_eq]
      -- the name occurs nowhere else
      have hnone : (entries.filterMap (sweepService now)).dlookup name = none := by
        rw [List.dlookup_eq_none]
        exact fun hmem => hkey ((keys_sweep_sublist now entries).subset hmem)
      by_cases hnil : unexpired now instances = []
      · simp only [hnil, if_true, hnone, Option.getD_none, Option.getD_some]
      · simp only [hnil, if_false, List.dlookup_cons_eq, Option.getD_some]
    · rw [List.dlookup_cons_ne _ _ hname]
      by_cases hnil : unexpired now instances = []
      · simp only [hnil, if_true]
        exact ih hrest
      · simp only [hnil, if_false]
        rw [List.dlookup_cons_ne _ _ hname]
        exact ih hrest

theorem getServiceInstances_removeExpiredServices :
    (m.removeExpiredServices now).getServiceInstances name =
      unexpired now (m.getServiceInstances name) :=
  dlookup_sweep now name m.services.nodupKeys

end Instances

/-! ### What holds of all services -/

/-- Every name of a service has the one property, and every instance has the other. -/
def AllServices (name : Bytes → Prop) (inst : ServiceInstance → Prop)
    (m : RegistryStateMachine) : Prop :=
  ∀ service ∈ m.services.entries, name service.1 ∧ ∀ i ∈ service.2, inst i

section AllServices

variable {Q : Bytes → Prop} {P : ServiceInstance → Prop} {m : RegistryStateMachine}
  {serviceName host : Bytes} {port now : ℤ}

/-- A stamp keeps what does not depend on the heartbeat before it. -/
theorem forall_stampFirst {instances stamped : List ServiceInstance}
    (hstamp : ∀ i, P i → P { i with lastHeartbeat := now }) (h : ∀ i ∈ instances, P i)
    (hs : stampFirst host port now instances = some stamped) : ∀ i ∈ stamped, P i := by
  induction instances generalizing stamped with
  | nil => simp [stampFirst] at hs
  | cons j js ih =>
    rw [List.forall_mem_cons] at h
    rw [stampFirst] at hs
    split at hs
    · rw [Option.some.injEq] at hs
      subst hs
      exact List.forall_mem_cons.mpr ⟨hstamp j h.1, h.2⟩
    · rw [Option.map_eq_some_iff] at hs
      obtain ⟨rest, hrest, rfl⟩ := hs
      exact List.forall_mem_cons.mpr ⟨h.1, ih h.2 hrest⟩

theorem allServices_empty : AllServices Q P {} :=
  fun _ hmem => absurd hmem List.not_mem_nil

theorem AllServices.of_lookup (h : AllServices Q P m) {instances : List ServiceInstance}
    (hl : m.services.lookup serviceName = some instances) :
    Q serviceName ∧ ∀ i ∈ instances, P i :=
  h _ (AList.mem_lookup_iff.mp hl)

theorem AllServices.forall_lookup (h : AllServices Q P m) :
    ∀ i ∈ (m.services.lookup serviceName).getD [], P i := by
  cases hl : m.services.lookup serviceName with
  | none => exact fun i hi => absurd hi List.not_mem_nil
  | some instances => exact (h.of_lookup hl).2

/-- The service is replaced, and the others stay. -/
theorem AllServices.insert (h : AllServices Q P m) (hname : Q serviceName)
    {instances : List ServiceInstance} (hinst : ∀ i ∈ instances, P i) :
    AllServices Q P { services := m.services.insert serviceName instances } := by
  intro service hmem
  rcases List.mem_cons.mp hmem with rfl | hmem
  · exact ⟨hname, hinst⟩
  · exact h service ((List.kerase_sublist _ _).subset hmem)

theorem AllServices.registerService (h : AllServices Q P m) (hname : Q serviceName)
    (hnew : P ⟨host, port, now⟩) (hstamp : ∀ i, P i → P { i with lastHeartbeat := now }) :
    AllServices Q P (m.registerService serviceName host port now) := by
  refine h.insert hname ?_
  cases hs : stampFirst host port now ((m.services.lookup serviceName).getD []) with
  | none =>
    intro i hi
    rcases List.mem_append.mp hi with hi | hi
    · exact h.forall_lookup i hi
    · rw [List.mem_singleton.mp hi]
      exact hnew
  | some stamped => exact forall_stampFirst hstamp h.forall_lookup hs

theorem AllServices.updateHeartbeat (h : AllServices Q P m)
    (hstamp : ∀ i, P i → P { i with lastHeartbeat := now }) :
    AllServices Q P (m.updateHeartbeat serviceName host port now) := by
  unfold RegistryStateMachine.updateHeartbeat
  cases hl : m.services.lookup serviceName with
  | none => exact h
  | some instances =>
    obtain ⟨hname, hinst⟩ := h.of_lookup hl
    simp only
    cases hs : stampFirst host port now instances with
    | none => exact h
    | some stamped => exact h.insert hname (forall_stampFirst hstamp hinst hs)

theorem AllServices.unregisterService (h : AllServices Q P m) :
    AllServices Q P (m.unregisterService serviceName host port) := by
  unfold RegistryStateMachine.unregisterService
  cases hl : m.services.lookup serviceName with
  | none => exact h
  | some instances =>
    obtain ⟨hname, hinst⟩ := h.of_lookup hl
    simp only
    split
    · intro service hmem
      exact h service ((List.kerase_sublist _ _).subset hmem)
    · exact h.insert hname fun i hi => hinst i (List.mem_of_mem_filter hi)

theorem AllServices.removeExpiredServices (h : AllServices Q P m) :
    AllServices Q P (m.removeExpiredServices now) := by
  intro service hmem
  obtain ⟨before, hbefore, hsweep⟩ := List.mem_filterMap.mp hmem
  obtain ⟨hname, hinst⟩ := h before hbefore
  rw [sweepService] at hsweep
  split at hsweep
  · simp at hsweep
  · rw [← Option.some.inj hsweep]
    exact ⟨hname, fun i hi => hinst i (List.mem_of_mem_filter hi)⟩

end AllServices

/-! ### One address in a list of instances -/

/-- The last heartbeat of the instance at the address. -/
def heartbeatAt (host : Bytes) (port : ℤ) (instances : List ServiceInstance) : Option ℤ :=
  (instances.find? fun i => i.At host port).map ServiceInstance.lastHeartbeat

/-- No two instances have the same address. -/
def Distinct (instances : List ServiceInstance) : Prop :=
  (instances.map fun i => (i.host, i.port)).Nodup

section Address

variable {host host' : Bytes} {port port' now : ℤ} {instances stamped : List ServiceInstance}

theorem heartbeatAt_cons (i : ServiceInstance) :
    heartbeatAt host port (i :: instances) =
      if i.At host port then some i.lastHeartbeat else heartbeatAt host port instances := by
  unfold heartbeatAt
  rw [List.find?_cons]
  by_cases h : i.At host port <;> simp [h]

theorem heartbeatAt_isSome :
    (heartbeatAt host port instances).isSome ↔ ∃ i ∈ instances, i.At host port := by
  simp [heartbeatAt, List.find?_isSome]

theorem At.congr {i : ServiceInstance} (h : i.At host port) (h' : i.At host' port') :
    host' = host ∧ port' = port :=
  ⟨h'.1.symm.trans h.1, h'.2.symm.trans h.2⟩

/-- An instance that is elsewhere may be asked before the address is, or after. -/
theorem ite_at_comm {i : ServiceInstance} (hat : ¬ i.At host port) (x y : Option ℤ) :
    (if i.At host' port' then some i.lastHeartbeat
      else if host' = host ∧ port' = port then x else y) =
      if host' = host ∧ port' = port then x
      else if i.At host' port' then some i.lastHeartbeat else y := by
  by_cases hat' : i.At host' port'
  · have hne : ¬ (host' = host ∧ port' = port) := by
      rintro ⟨rfl, rfl⟩
      exact hat hat'
    rw [if_pos hat', if_neg hne, if_pos hat']
  · rw [if_neg hat', if_neg hat']

/-- A stamp changes the heartbeat at its address and no other. -/
theorem heartbeatAt_stampFirst (h : stampFirst host port now instances = some stamped) :
    heartbeatAt host' port' stamped =
      if host' = host ∧ port' = port then some now else heartbeatAt host' port' instances := by
  induction instances generalizing stamped with
  | nil => simp [stampFirst] at h
  | cons i is ih =>
    rw [stampFirst] at h
    split at h
    · next hat =>
      rw [Option.some.injEq] at h
      subst h
      have hstamp : ∀ h p, ServiceInstance.At h p { i with lastHeartbeat := now } ↔ i.At h p :=
        fun _ _ => Iff.rfl
      rw [heartbeatAt_cons, heartbeatAt_cons]
      simp only [hstamp]
      by_cases hat' : i.At host' port'
      · rw [if_pos hat', if_pos (At.congr hat hat')]
      · have hne : ¬ (host' = host ∧ port' = port) := by
          rintro ⟨rfl, rfl⟩
          exact hat' hat
        rw [if_neg hat', if_neg hne, if_neg hat']
    · next hat =>
      rw [Option.map_eq_some_iff] at h
      obtain ⟨stamped, hs, rfl⟩ := h
      rw [heartbeatAt_cons, heartbeatAt_cons, ih hs]
      exact ite_at_comm hat _ _

theorem heartbeatAt_of_stampFirst_none (h : stampFirst host port now instances = none) :
    heartbeatAt host port instances = none := by
  induction instances with
  | nil => rfl
  | cons i is ih =>
    rw [stampFirst] at h
    split at h
    · simp at h
    · next hat =>
      rw [Option.map_eq_none_iff] at h
      rw [heartbeatAt_cons, if_neg hat, ih h]

theorem stampFirst_eq_none (h : ∀ i ∈ instances, ¬ i.At host port) :
    stampFirst host port now instances = none := by
  induction instances with
  | nil => rfl
  | cons i is ih =>
    rw [stampFirst, if_neg (h i List.mem_cons_self),
      ih fun j hj => h j (List.mem_cons_of_mem _ hj), Option.map_none]

theorem heartbeatAt_append_of_none (h : heartbeatAt host port instances = none) :
    heartbeatAt host' port' (instances ++ [⟨host, port, now⟩]) =
      if host' = host ∧ port' = port then some now else heartbeatAt host' port' instances := by
  have hnew : ServiceInstance.At host' port' ⟨host, port, now⟩ ↔ host' = host ∧ port' = port :=
    ⟨fun h => ⟨h.1.symm, h.2.symm⟩, fun h => ⟨h.1.symm, h.2.symm⟩⟩
  induction instances with
  | nil => rw [List.nil_append, heartbeatAt_cons]; simp only [hnew]
  | cons i is ih =>
    rw [heartbeatAt_cons] at h
    split at h
    · simp at h
    · next hat =>
      rw [List.cons_append, heartbeatAt_cons, heartbeatAt_cons, ih h]
      exact ite_at_comm hat _ _

theorem heartbeatAt_filter_not_at :
    heartbeatAt host' port' (instances.filter fun i => ¬ i.At host port) =
      if host' = host ∧ port' = port then none else heartbeatAt host' port' instances := by
  induction instances with
  | nil => simp [heartbeatAt]
  | cons i is ih =>
    rw [List.filter_cons]
    by_cases hat : i.At host port
    · simp only [hat, not_true_eq_false, decide_false, Bool.false_eq_true, if_false]
      rw [ih, heartbeatAt_cons]
      by_cases hsame : host' = host ∧ port' = port
      · rw [if_pos hsame, if_pos hsame]
      · have hat' : ¬ i.At host' port' := fun h => hsame (At.congr hat h)
        rw [if_neg hsame, if_neg hsame, if_neg hat']
    · simp only [hat, not_false_eq_true, decide_true, if_true]
      rw [heartbeatAt_cons, heartbeatAt_cons, ih]
      exact ite_at_comm hat _ _

theorem heartbeatAt_of_forall_not (h : ∀ i ∈ instances, ¬ i.At host port) :
    heartbeatAt host port instances = none := by
  rw [← Option.not_isSome_iff_eq_none, heartbeatAt_isSome]
  rintro ⟨i, hmem, hat⟩
  exact h i hmem hat

/-- A sweep forgets a heartbeat that is too old; here it matters that no second
instance at the address can come to light. -/
theorem heartbeatAt_unexpired (hdist : Distinct instances) :
    heartbeatAt host port (unexpired now instances) =
      (heartbeatAt host port instances).filter fun t => now - t ≤ heartbeatTimeout := by
  induction instances with
  | nil => rfl
  | cons i is ih =>
    obtain ⟨hi, his⟩ := List.nodup_cons.mp hdist
    rw [heartbeatAt_cons, unexpired, List.filter_cons]
    by_cases hexp : now - i.lastHeartbeat ≤ heartbeatTimeout
    · simp only [hexp, decide_true, if_true]
      rw [heartbeatAt_cons]
      split
      · simp [Option.filter, hexp]
      · exact ih his
    · simp only [hexp, decide_false, Bool.false_eq_true, if_false]
      split
      · next hat =>
        have hnone : ∀ j ∈ unexpired now is, ¬ j.At host port := by
          intro j hj hatj
          obtain ⟨rfl, rfl⟩ := hat
          have hmem := List.mem_map_of_mem (f := fun k : ServiceInstance => (k.host, k.port))
            (List.mem_of_mem_filter hj)
          rw [show (j.host, j.port) = (i.host, i.port) from Prod.ext hatj.1 hatj.2] at hmem
          exact hi hmem
        rw [show is.filter _ = unexpired now is from rfl, heartbeatAt_of_forall_not hnone]
        simp [Option.filter, hexp]
      · exact ih his

/-- A stamp moves nobody. -/
theorem map_address_stampFirst (h : stampFirst host port now instances = some stamped) :
    stamped.map (fun i => (i.host, i.port)) = instances.map fun i => (i.host, i.port) := by
  induction instances generalizing stamped with
  | nil => simp [stampFirst] at h
  | cons i is ih =>
    rw [stampFirst] at h
    split at h
    · rw [Option.some.injEq] at h
      subst h
      rfl
    · rw [Option.map_eq_some_iff] at h
      obtain ⟨stamped, hs, rfl⟩ := h
      rw [List.map_cons, List.map_cons, ih hs]

theorem distinct_stampFirst (hdist : Distinct instances)
    (h : stampFirst host port now instances = some stamped) : Distinct stamped := by
  rw [Distinct, map_address_stampFirst h]
  exact hdist

theorem distinct_append_of_none (hdist : Distinct instances)
    (h : heartbeatAt host port instances = none) :
    Distinct (instances ++ [⟨host, port, now⟩]) := by
  rw [Distinct, List.map_append, List.map_singleton, List.nodup_append]
  refine ⟨hdist, List.nodup_singleton _, fun a ha b hb hab => ?_⟩
  rw [List.mem_singleton] at hb
  obtain ⟨i, hi, rfl⟩ := List.mem_map.mp ha
  subst hb
  -- the list already had an instance at the new address
  have hsome : (heartbeatAt host port instances).isSome :=
    heartbeatAt_isSome.mpr ⟨i, hi, Prod.mk.inj hab⟩
  rw [h] at hsome
  simp at hsome

theorem distinct_filter (hdist : Distinct instances) (p : ServiceInstance → Bool) :
    Distinct (instances.filter p) :=
  List.Nodup.sublist (List.filter_sublist.map _) hdist

end Address

end RegistryStateMachine

/-! ### One instance -/

/-- What an instance is known by. -/
structure InstanceKey where
  serviceName : Bytes
  host : Bytes
  port : ℤ
  deriving DecidableEq, Repr

inductive OperationType where
  | register
  | unregister
  | heartbeat
  deriving DecidableEq, Repr

/-- What a replica goes through: an entry applied, or a sweep, at the time its own
clock shows. -/
inductive LocalEvent where
  | apply (entry : LogEntry) (now : ℤ)
  | sweep (now : ℤ)
  deriving DecidableEq, Repr

/-- The type of an operation; other texts do nothing. -/
def operationType? (operation : ServiceOperation) : Option OperationType :=
  if operation.operationType = utf8 "register" then some .register
  else if operation.operationType = utf8 "unregister" then some .unregister
  else if operation.operationType = utf8 "heartbeat" then some .heartbeat
  else none

namespace InstanceKey

/-- What an entry does to the instance. -/
def effect (x : InstanceKey) (entry : LogEntry) : Option OperationType :=
  (RegistryStateMachine.serviceOperation entry).bind fun operation =>
    if x = ⟨operation.serviceName, operation.host, operation.port⟩ then operationType? operation
    else none

/-- **The model of an instance**: its last heartbeat while it is registered. -/
def step (x : InstanceKey) (lastHeartbeat : Option ℤ) : LocalEvent → Option ℤ
  | .apply entry now =>
      match x.effect entry with
      | some .register => some now
      | some .unregister => none
      | some .heartbeat => lastHeartbeat.map fun _ => now
      | none => lastHeartbeat
  | .sweep now => lastHeartbeat.filter fun t => now - t ≤ heartbeatTimeout

end InstanceKey

namespace RegistryStateMachine

/-- One event of a replica. -/
def step (m : RegistryStateMachine) : LocalEvent → RegistryStateMachine
  | .apply entry now => m.applyLogEntry entry now
  | .sweep now => m.removeExpiredServices now

/-- A replica, from its construction on. -/
def run (schedule : List LocalEvent) : RegistryStateMachine := schedule.foldl step {}

/-- The last heartbeat the machine holds for an instance. -/
def lastHeartbeat (m : RegistryStateMachine) (x : InstanceKey) : Option ℤ :=
  heartbeatAt x.host x.port (m.getServiceInstances x.serviceName)

/-- No service has two instances at one address. -/
def Wellformed (m : RegistryStateMachine) : Prop :=
  ∀ serviceName, Distinct (m.getServiceInstances serviceName)

section Step

variable {m : RegistryStateMachine}

theorem wellformed_registerService (h : m.Wellformed) (serviceName host : Bytes)
    (port now : ℤ) : (m.registerService serviceName host port now).Wellformed := by
  intro name
  rw [getServiceInstances_registerService]
  split
  · cases hs : stampFirst host port now (m.getServiceInstances serviceName) with
    | none => exact distinct_append_of_none (h serviceName) (heartbeatAt_of_stampFirst_none hs)
    | some stamped => exact distinct_stampFirst (h serviceName) hs
  · exact h name

theorem wellformed_unregisterService (h : m.Wellformed) (serviceName host : Bytes) (port : ℤ) :
    (m.unregisterService serviceName host port).Wellformed := by
  intro name
  rw [getServiceInstances_unregisterService]
  split
  · exact distinct_filter (h serviceName) _
  · exact h name

theorem wellformed_updateHeartbeat (h : m.Wellformed) (serviceName host : Bytes)
    (port now : ℤ) : (m.updateHeartbeat serviceName host port now).Wellformed := by
  intro name
  rw [getServiceInstances_updateHeartbeat]
  split
  · cases hs : stampFirst host port now (m.getServiceInstances serviceName) with
    | none => exact h serviceName
    | some stamped => exact distinct_stampFirst (h serviceName) hs
  · exact h name

theorem wellformed_removeExpiredServices (h : m.Wellformed) (now : ℤ) :
    (m.removeExpiredServices now).Wellformed := by
  intro name
  rw [getServiceInstances_removeExpiredServices]
  exact distinct_filter (h name) _

/-- Every event keeps addresses distinct. -/
theorem wellformed_step (h : m.Wellformed) (event : LocalEvent) : (m.step event).Wellformed := by
  cases event with
  | sweep now => exact wellformed_removeExpiredServices h now
  | apply entry now =>
    rw [step, applyLogEntry]
    split
    · exact h
    · rw [applyServiceOperation]
      split_ifs
      · exact wellformed_registerService h _ _ _ _
      · exact wellformed_unregisterService h _ _ _
      · exact wellformed_updateHeartbeat h _ _ _ _
      · exact h

variable (x : InstanceKey) (serviceName host : Bytes) (port now : ℤ)

theorem lastHeartbeat_registerService :
    (m.registerService serviceName host port now).lastHeartbeat x =
      if x = ⟨serviceName, host, port⟩ then some now else m.lastHeartbeat x := by
  obtain ⟨name, host', port'⟩ := x
  simp only [lastHeartbeat, getServiceInstances_registerService, InstanceKey.mk.injEq]
  by_cases hname : name = serviceName
  · subst hname
    simp only [if_true, true_and]
    cases hs : stampFirst host port now (m.getServiceInstances name) with
    | none => exact heartbeatAt_append_of_none (heartbeatAt_of_stampFirst_none hs)
    | some stamped => exact heartbeatAt_stampFirst hs
  · simp [hname]

theorem lastHeartbeat_unregisterService :
    (m.unregisterService serviceName host port).lastHeartbeat x =
      if x = ⟨serviceName, host, port⟩ then none else m.lastHeartbeat x := by
  obtain ⟨name, host', port'⟩ := x
  simp only [lastHeartbeat, getServiceInstances_unregisterService, InstanceKey.mk.injEq]
  by_cases hname : name = serviceName
  · subst hname
    simp only [if_true, true_and]
    exact heartbeatAt_filter_not_at
  · simp [hname]

theorem lastHeartbeat_updateHeartbeat :
    (m.updateHeartbeat serviceName host port now).lastHeartbeat x =
      if x = ⟨serviceName, host, port⟩ then (m.lastHeartbeat x).map fun _ => now
      else m.lastHeartbeat x := by
  obtain ⟨name, host', port'⟩ := x
  simp only [lastHeartbeat, getServiceInstances_updateHeartbeat, InstanceKey.mk.injEq]
  by_cases hname : name = serviceName
  · subst hname
    simp only [if_true, true_and]
    cases hs : stampFirst host port now (m.getServiceInstances name) with
    | none =>
      -- there is no instance to stamp
      have hnone := heartbeatAt_of_stampFirst_none hs
      rw [Option.getD_none]
      split
      · next h =>
        obtain ⟨rfl, rfl⟩ := h
        rw [hnone, Option.map_none]
      · rfl
    | some stamped =>
      rw [Option.getD_some, heartbeatAt_stampFirst hs]
      split
      · next h =>
        obtain ⟨rfl, rfl⟩ := h
        obtain ⟨t, ht⟩ : ∃ t, heartbeatAt host' port' (m.getServiceInstances name) = some t := by
          rw [← Option.isSome_iff_exists, heartbeatAt_isSome]
          by_contra hcon
          push Not at hcon
          rw [stampFirst_eq_none hcon] at hs
          simp at hs
        rw [ht, Option.map_some]
      · rfl
  · simp [hname]

theorem lastHeartbeat_removeExpiredServices (h : m.Wellformed) :
    (m.removeExpiredServices now).lastHeartbeat x =
      (m.lastHeartbeat x).filter fun t => now - t ≤ heartbeatTimeout := by
  rw [lastHeartbeat, getServiceInstances_removeExpiredServices, heartbeatAt_unexpired (h _)]
  rfl

/-- **The machine refines the model**, event by event. -/
theorem lastHeartbeat_step (h : m.Wellformed) (event : LocalEvent) :
    (m.step event).lastHeartbeat x = x.step (m.lastHeartbeat x) event := by
  cases event with
  | sweep now => exact lastHeartbeat_removeExpiredServices x now h
  | apply entry now =>
    simp only [step, applyLogEntry, InstanceKey.step, InstanceKey.effect]
    cases serviceOperation entry with
    | none => rfl
    | some operation =>
      simp only [Option.bind_some, applyServiceOperation, operationType?]
      by_cases hx : x = ⟨operation.serviceName, operation.host, operation.port⟩
      · rw [if_pos hx]
        split_ifs
        · simp [lastHeartbeat_registerService, hx]
        · simp [lastHeartbeat_unregisterService, hx]
        · simp [lastHeartbeat_updateHeartbeat, hx]
        · rfl
      · rw [if_neg hx]
        split_ifs
        · rw [lastHeartbeat_registerService, if_neg hx]
        · rw [lastHeartbeat_unregisterService, if_neg hx]
        · rw [lastHeartbeat_updateHeartbeat, if_neg hx]
        · rfl

end Step

theorem run_append (schedule schedule' : List LocalEvent) :
    run (schedule ++ schedule') = schedule'.foldl step (run schedule) := List.foldl_append

theorem wellformed_run (schedule : List LocalEvent) : (run schedule).Wellformed := by
  induction schedule using List.reverseRecOn with
  | nil => exact fun _ => List.nodup_nil
  | append_singleton schedule event ih =>
    rw [run_append]
    exact wellformed_step ih event

/-- **The machine refines the model**: after any schedule it holds exactly the
heartbeats the model of each instance ends with. -/
theorem lastHeartbeat_run (x : InstanceKey) (schedule : List LocalEvent) :
    (run schedule).lastHeartbeat x = schedule.foldl x.step none := by
  induction schedule using List.reverseRecOn with
  | nil => rfl
  | append_singleton schedule event ih =>
    rw [run_append, List.foldl_append, List.foldl_cons, List.foldl_nil, List.foldl_cons,
      List.foldl_nil, lastHeartbeat_step x (wellformed_run schedule), ih]

/-- The address is among those `getServiceInstances` returns if the machine holds a
heartbeat for it. -/
theorem mem_getServiceInstances (m : RegistryStateMachine) (x : InstanceKey) :
    (x.host, x.port) ∈ (m.getServiceInstances x.serviceName).map (fun i => (i.host, i.port)) ↔
      (m.lastHeartbeat x).isSome := by
  rw [lastHeartbeat, heartbeatAt_isSome, List.mem_map]
  constructor
  · rintro ⟨i, hi, haddr⟩
    exact ⟨i, hi, Prod.mk.inj haddr⟩
  · rintro ⟨i, hi, hat⟩
    exact ⟨i, hi, Prod.ext hat.1 hat.2⟩

end RegistryStateMachine
