import RpcFramework.Registry.Reads

/-!
# The stand-alone registry

`RegistryServer` is the registry that runs on one node: it keeps its own map of services
and changes it in the handlers of the requests themselves.  It was written apart from the
`RegistryStateMachine` of the distributed registry, and differs from it in how it goes
about each operation; what the two do to the map is the same.

## Main definitions

* `RegistryServer.handleServiceRegister`, `RegistryServer.handleServiceDiscovery`,
  `RegistryServer.handleHeartbeat`, `RegistryServer.checkHeartbeat` — the server.
* `RegistryOperation` — what changes a registry's map.

## Main results

* `RegistryServer.services_handleServiceRegister`, `RegistryServer.services_handleHeartbeat`,
  `RegistryServer.services_checkHeartbeat` — operation by operation, the maps stay equal.
* `registries_agree` — **the two registries implement the same map.**
-/

open Rpc

structure RegistryServer where
  services : AList (fun _ : Bytes => List ServiceInstance) := ∅

namespace RegistryServer

/-- The loop of `handleServiceRegister`: the first instance at the address of `new` takes
its heartbeat, and `found` is set. -/
def refresh (new : ServiceInstance) : List ServiceInstance → List ServiceInstance × Bool
  | [] => ([], false)
  | existing :: rest =>
      if existing.host = new.host ∧ existing.port = new.port then
        ({ existing with lastHeartbeat := new.lastHeartbeat } :: rest, true)
      else (existing :: (refresh new rest).1, (refresh new rest).2)

/-- `handleServiceRegister`, when the clock shows `now`. -/
def handleServiceRegister (s : RegistryServer) (request : ServiceRegisterRequest) (now : ℤ) :
    RegistryServer × ServiceRegisterResponse :=
  let new : ServiceInstance := ⟨request.host, request.port, now⟩
  let (instances, found) := refresh new ((s.services.lookup request.serviceName).getD [])
  ({ services := s.services.insert request.serviceName
      (if found then instances else instances ++ [new]) },
    { success := true, message := utf8 "Service registered successfully" })

def handleServiceDiscovery (s : RegistryServer) (request : ServiceDiscoveryRequest) :
    ServiceDiscoveryResponse :=
  match s.services.lookup request.serviceName with
  | none => {}
  | some instances =>
      { services := (instances.filter fun i => i.host ≠ [] ∧ 0 < i.port).map fun i =>
          { host := i.host, port := i.port, lastHeartbeat := i.lastHeartbeat.tdiv (10 ^ 6) } }

/-- The answer to a heartbeat of nobody. -/
def instanceNotFound : HeartbeatResponse where
  success := false
  message := utf8 "Service instance not found"

/-- `handleHeartbeat`, when the clock shows `now`. -/
def handleHeartbeat (s : RegistryServer) (request : HeartbeatRequest) (now : ℤ) :
    RegistryServer × HeartbeatResponse :=
  match s.services.lookup request.serviceName with
  | none => (s, instanceNotFound)
  | some instances =>
      match RegistryStateMachine.stampFirst request.host request.port now instances with
      | none => (s, instanceNotFound)
      | some instances =>
          ({ services := s.services.insert request.serviceName instances },
            { success := true, message := utf8 "Heartbeat received" })

def expired (now : ℤ) (i : ServiceInstance) : Prop := heartbeatTimeout < now - i.lastHeartbeat

instance (now : ℤ) : DecidablePred (expired now) := fun _ => inferInstanceAs (Decidable (_ < _))

/-- The first pass of `checkHeartbeat`: every service loses its expired instances. -/
def dropExpired (now : ℤ) (services : List (Σ _ : Bytes, List ServiceInstance)) :
    List (Σ _ : Bytes, List ServiceInstance) :=
  services.map fun service => ⟨service.1, service.2.filter fun i => ¬ expired now i⟩

/-- The second pass: services without instances go. -/
def dropEmpty (services : List (Σ _ : Bytes, List ServiceInstance)) :
    List (Σ _ : Bytes, List ServiceInstance) :=
  services.filter fun service => service.2 ≠ []

/-- The two passes do what the one pass of the state machine does. -/
theorem dropEmpty_dropExpired (now : ℤ) (services : List (Σ _ : Bytes, List ServiceInstance)) :
    dropEmpty (dropExpired now services) =
      services.filterMap (RegistryStateMachine.sweepService now) := by
  have hkeep : ∀ instances : List ServiceInstance,
      (instances.filter fun i => ¬ expired now i) =
        RegistryStateMachine.unexpired now instances := by
    intro instances
    simp only [expired, Int.not_lt, RegistryStateMachine.unexpired]
  induction services with
  | nil => rfl
  | cons service services ih =>
    rw [dropExpired, List.map_cons, dropEmpty, List.filter_cons, List.filterMap_cons,
      RegistryStateMachine.sweepService, hkeep]
    by_cases hnil : RegistryStateMachine.unexpired now service.2 = []
    · simp only [hnil, ne_eq, not_true_eq_false, decide_false, Bool.false_eq_true, if_false,
        if_true]
      exact ih
    · simp only [hnil, ne_eq, not_false_eq_true, decide_true, if_true, if_false]
      exact congrArg (_ :: ·) ih

/-- `checkHeartbeat`, when the clock shows `now`. -/
def checkHeartbeat (s : RegistryServer) (now : ℤ) : RegistryServer where
  services :=
    { entries := dropEmpty (dropExpired now s.services.entries)
      nodupKeys := by
        rw [dropEmpty_dropExpired]
        exact (RegistryStateMachine.keys_sweep_sublist now _).nodup s.services.nodupKeys }

/-! ### Operation by operation -/

/-- The loop with the flag and the loop with the early return. -/
theorem refresh_eq (new : ServiceInstance) (instances : List ServiceInstance) :
    refresh new instances =
      match RegistryStateMachine.stampFirst new.host new.port new.lastHeartbeat instances with
      | some stamped => (stamped, true)
      | none => (instances, false) := by
  induction instances with
  | nil => rfl
  | cons existing rest ih =>
    rw [refresh, RegistryStateMachine.stampFirst]
    by_cases hat : existing.host = new.host ∧ existing.port = new.port
    · rw [if_pos hat, if_pos (show existing.At new.host new.port from hat)]
    · rw [if_neg hat, if_neg (show ¬ existing.At new.host new.port from hat), ih]
      cases RegistryStateMachine.stampFirst new.host new.port new.lastHeartbeat rest with
      | none => rfl
      | some stamped => rfl

section Operations

variable {s : RegistryServer} {m : RegistryStateMachine}

theorem services_handleServiceRegister (h : s.services = m.services)
    (request : ServiceRegisterRequest) (now : ℤ) :
    (s.handleServiceRegister request now).1.services =
      (m.registerService request.serviceName request.host request.port now).services := by
  unfold handleServiceRegister RegistryStateMachine.registerService
  simp only [refresh_eq, h]
  cases RegistryStateMachine.stampFirst request.host request.port now
      ((m.services.lookup request.serviceName).getD []) with
  | none => rfl
  | some stamped => rfl

theorem services_handleHeartbeat (h : s.services = m.services) (request : HeartbeatRequest)
    (now : ℤ) :
    (s.handleHeartbeat request now).1.services =
      (m.updateHeartbeat request.serviceName request.host request.port now).services := by
  unfold handleHeartbeat RegistryStateMachine.updateHeartbeat
  rw [h]
  cases m.services.lookup request.serviceName with
  | none => exact h
  | some instances =>
    simp only
    cases RegistryStateMachine.stampFirst request.host request.port now instances with
    | none => exact h
    | some stamped => rfl

theorem services_checkHeartbeat (h : s.services = m.services) (now : ℤ) :
    (s.checkHeartbeat now).services = (m.removeExpiredServices now).services := by
  apply AList.ext
  show dropEmpty (dropExpired now s.services.entries) = _
  rw [dropEmpty_dropExpired, h]
  rfl

/-- **A heartbeat succeeds exactly for an instance that is there.** -/
theorem success_handleHeartbeat (h : s.services = m.services) (request : HeartbeatRequest)
    (now : ℤ) :
    (s.handleHeartbeat request now).2.success = true ↔
      ∃ i ∈ m.getServiceInstances request.serviceName, i.At request.host request.port := by
  unfold handleHeartbeat RegistryStateMachine.getServiceInstances
  rw [h]
  cases m.services.lookup request.serviceName with
  | none => simp [instanceNotFound]
  | some instances =>
    simp only [Option.getD_some]
    cases hs : RegistryStateMachine.stampFirst request.host request.port now instances with
    | none =>
      have hnone := RegistryStateMachine.heartbeatAt_of_stampFirst_none hs
      rw [← RegistryStateMachine.heartbeatAt_isSome, hnone]
      simp [instanceNotFound]
    | some stamped =>
      refine iff_of_true rfl ?_
      -- otherwise there would have been nothing to stamp
      by_contra hcon
      push Not at hcon
      rw [RegistryStateMachine.stampFirst_eq_none hcon] at hs
      exact absurd hs (by simp)

theorem handleServiceDiscovery_eq (h : s.services = m.services)
    (request : ServiceDiscoveryRequest) :
    s.handleServiceDiscovery request =
      DistributedRegistryServer.handleServiceDiscovery m request := by
  unfold handleServiceDiscovery DistributedRegistryServer.handleServiceDiscovery
    RegistryStateMachine.getServiceInstances
  rw [h]
  cases m.services.lookup request.serviceName with
  | none => rfl
  | some instances => rfl

end Operations

end RegistryServer

/-! ### Whole runs -/

/-- What changes the map of a registry, at the time the clock shows. -/
inductive RegistryOperation where
  | register (request : ServiceRegisterRequest) (now : ℤ)
  | heartbeat (request : HeartbeatRequest) (now : ℤ)
  | expiry (now : ℤ)
  deriving DecidableEq, Repr

/-- An operation on the stand-alone registry. -/
def RegistryServer.perform (s : RegistryServer) : RegistryOperation → RegistryServer
  | .register request now => (s.handleServiceRegister request now).1
  | .heartbeat request now => (s.handleHeartbeat request now).1
  | .expiry now => s.checkHeartbeat now

/-- The operation on the state machine of the distributed registry. -/
def RegistryStateMachine.perform (m : RegistryStateMachine) :
    RegistryOperation → RegistryStateMachine
  | .register request now => m.registerService request.serviceName request.host request.port now
  | .heartbeat request now => m.updateHeartbeat request.serviceName request.host request.port now
  | .expiry now => m.removeExpiredServices now

/-- Every operation keeps the maps equal. -/
theorem RegistryServer.services_perform {s : RegistryServer} {m : RegistryStateMachine}
    (h : s.services = m.services) (operation : RegistryOperation) :
    (s.perform operation).services = (m.perform operation).services := by
  cases operation with
  | register request now => exact services_handleServiceRegister h request now
  | heartbeat request now => exact services_handleHeartbeat h request now
  | expiry now => exact services_checkHeartbeat h now

/-- From equal maps, any operations lead to equal maps. -/
theorem RegistryServer.services_foldl {s : RegistryServer} {m : RegistryStateMachine}
    (h : s.services = m.services) (operations : List RegistryOperation) :
    (operations.foldl perform s).services =
      (operations.foldl RegistryStateMachine.perform m).services := by
  induction operations generalizing s m with
  | nil => exact h
  | cons operation operations ih => exact ih (services_perform h operation)

/-- **The two registries implement the same map.**  After any operations from empty, at the
same times, the maps are equal, a heartbeat succeeds exactly for an instance that is there,
and every discovery is answered alike. -/
theorem registries_agree (operations : List RegistryOperation) :
    (operations.foldl RegistryServer.perform {}).services =
        (operations.foldl RegistryStateMachine.perform {}).services ∧
      (∀ (request : HeartbeatRequest) (now : ℤ),
        ((operations.foldl RegistryServer.perform {}).handleHeartbeat request now).2.success =
            true ↔
          ∃ i ∈ (operations.foldl RegistryStateMachine.perform {}).getServiceInstances
              request.serviceName,
            i.At request.host request.port) ∧
      ∀ request : ServiceDiscoveryRequest,
        (operations.foldl RegistryServer.perform {}).handleServiceDiscovery request =
          DistributedRegistryServer.handleServiceDiscovery
            (operations.foldl RegistryStateMachine.perform {}) request := by
  have hsame := RegistryServer.services_foldl (s := {}) (m := {}) rfl operations
  refine ⟨hsame, ?_, ?_⟩
  · intro request now
    exact RegistryServer.success_handleHeartbeat hsame request now
  · intro request
    exact RegistryServer.handleServiceDiscovery_eq hsame request
