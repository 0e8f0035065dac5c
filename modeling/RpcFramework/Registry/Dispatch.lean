import RpcFramework.Common.Network
import RpcFramework.Proto.DistributedRegistry
import RpcFramework.Proto.RpcMessage

/-!
# The client ports of the registry

Both registry servers find out the type of a request by trying to read it as each
type in turn, and by looking at the values read before they settle for one.  A
registration and a heartbeat have the same fields and pass the same test, so the
heartbeat's turn never comes; the cluster status request has no fields, and a
message of no bytes is taken for a failed read before any parser sees it.

## Main definitions

* `RegistryServer.dispatch`, `DistributedRegistryServer.dispatch` — the handler a
  received byte string is given to.
* `ClientRequest` — a request of a client, with `Valid` as the servers test it.

## Main results

* `ClientRequest.registry_iff`, `ClientRequest.distributed_iff` — the valid requests
  that reach their handler: registrations and discoveries with UTF-8 text that pass a
  frame.
-/

open Rpc Wire

/-- A handler of a client port together with the request it is run on. -/
inductive ClientCall where
  | serviceRegister (request : ServiceRegisterRequest)
  | serviceDiscovery (request : ServiceDiscoveryRequest)
  | heartbeat (request : HeartbeatRequest)
  | clusterStatus
  deriving DecidableEq, Repr

/-- A request of a client is known by the handler it asks for. -/
abbrev ClientRequest := ClientCall

/-! ### The parsers -/

/-- The test a registration has to pass. -/
def Rpc.ServiceRegisterRequest.Valid (r : ServiceRegisterRequest) : Prop :=
  r.serviceName ≠ [] ∧ r.host ≠ [] ∧ 0 < r.port

instance (r : ServiceRegisterRequest) : Decidable r.Valid :=
  inferInstanceAs (Decidable (_ ∧ _))

/-- The test a discovery has to pass. -/
def Rpc.ServiceDiscoveryRequest.Valid (d : ServiceDiscoveryRequest) : Prop := d.serviceName ≠ []

instance (d : ServiceDiscoveryRequest) : Decidable d.Valid :=
  inferInstanceAs (Decidable (_ ≠ _))

/-- The test a heartbeat has to pass. -/
def Rpc.HeartbeatRequest.Valid (b : HeartbeatRequest) : Prop :=
  b.serviceName ≠ [] ∧ b.host ≠ [] ∧ 0 < b.port

instance (b : HeartbeatRequest) : Decidable b.Valid :=
  inferInstanceAs (Decidable (_ ∧ _))

/-- Read a message and keep it if it passes the test. -/
def parseIf {μ : Type*} (c : Codec μ) (valid : μ → Prop) [DecidablePred valid] (data : Bytes) :
    Option μ :=
  (Serializer.deserialize c data).filter fun m => valid m

/-- The parsers `RegistryServer::handleConnection` tries, in its order. -/
def RegistryServer.dispatch (data : Bytes) : Option ClientCall :=
  if data = [] then none
  else
    match parseIf ServiceRegisterRequest.codec ServiceRegisterRequest.Valid data with
    | some request => some (.serviceRegister request)
    | none =>
        match parseIf ServiceDiscoveryRequest.codec ServiceDiscoveryRequest.Valid data with
        | some request => some (.serviceDiscovery request)
        | none =>
            (parseIf HeartbeatRequest.codec HeartbeatRequest.Valid data).map .heartbeat

/-- The parsers `DistributedRegistryServer::handleClientConnection` tries: those of the
single server, and behind them the cluster status request, whatever its values. -/
def DistributedRegistryServer.dispatch (data : Bytes) : Option ClientCall :=
  if data = [] then none
  else
    match parseIf ServiceRegisterRequest.codec ServiceRegisterRequest.Valid data with
    | some request => some (.serviceRegister request)
    | none =>
        match parseIf ServiceDiscoveryRequest.codec ServiceDiscoveryRequest.Valid data with
        | some request => some (.serviceDiscovery request)
        | none =>
            match parseIf HeartbeatRequest.codec HeartbeatRequest.Valid data with
            | some request => some (.heartbeat request)
            | none =>
                (Serializer.deserialize ClusterStatusRequest.codec data).map fun _ =>
                  .clusterStatus

namespace ClientRequest

/-- The bytes of a request before serialization checks their number. -/
def encode : ClientRequest → Bytes
  | .serviceRegister r => ServiceRegisterRequest.codec.encode r
  | .serviceDiscovery d => ServiceDiscoveryRequest.codec.encode d
  | .heartbeat b => HeartbeatRequest.codec.encode b
  | .clusterStatus => ClusterStatusRequest.codec.encode {}

/-- The bytes a client sends for a request. -/
def serialize : ClientRequest → Bytes
  | .serviceRegister r => Serializer.serialize ServiceRegisterRequest.codec r
  | .serviceDiscovery d => Serializer.serialize ServiceDiscoveryRequest.codec d
  | .heartbeat b => Serializer.serialize HeartbeatRequest.codec b
  | .clusterStatus => Serializer.serialize ClusterStatusRequest.codec {}

/-- The request has the values its handler asks for, and its port is an `int32`. -/
def Valid : ClientRequest → Prop
  | .serviceRegister r => r.Valid ∧ Typed ServiceRegisterRequest.schema r
  | .serviceDiscovery d => d.Valid
  | .heartbeat b => b.Valid ∧ Typed HeartbeatRequest.schema b
  | .clusterStatus => True

/-- What a server reads from a connection on which a client has just sent the request. -/
def received (q : ClientRequest) : Bytes := TcpConnection.transmit q.serialize

/-- The request is a registration or a discovery, its bytes pass a frame, and its
text is UTF-8. -/
def Reachable : ClientRequest → Prop
  | .serviceRegister r =>
      TcpConnection.Passes (ServiceRegisterRequest.codec.encode r) ∧
        validUtf8 r.serviceName = true ∧ validUtf8 r.host = true
  | .serviceDiscovery d =>
      TcpConnection.Passes (ServiceDiscoveryRequest.codec.encode d) ∧
        validUtf8 d.serviceName = true
  | .heartbeat _ => False
  | .clusterStatus => False

theorem received_eq (q : ClientRequest) :
    q.received = if TcpConnection.Passes q.encode then q.encode else [] := by
  cases q with
  | serviceRegister r => exact Serializer.transmit_serialize ServiceRegisterRequest.codec r
  | serviceDiscovery d => exact Serializer.transmit_serialize ServiceDiscoveryRequest.codec d
  | heartbeat b => exact Serializer.transmit_serialize HeartbeatRequest.codec b
  | clusterStatus => exact Serializer.transmit_serialize ClusterStatusRequest.codec {}

end ClientRequest

/-! ### What each parser makes of each request -/

section Parsers

variable {r : ServiceRegisterRequest}

theorem parseRegister_encode (hvalid : r.Valid)
    (htyped : Typed ServiceRegisterRequest.schema r)
    (hlen : (ServiceRegisterRequest.codec.encode r).length ≤ maxLength) :
    parseIf ServiceRegisterRequest.codec ServiceRegisterRequest.Valid
        (ServiceRegisterRequest.codec.encode r) =
      if validUtf8 r.serviceName = true ∧ validUtf8 r.host = true then some r else none := by
  split
  · next htext =>
    have hread := ServiceRegisterRequest.decode_encode hlen htyped
      (ServiceRegisterRequest.text_iff.mpr htext)
    simp [parseIf, Serializer.deserialize, hread, Option.filter, hvalid]
  · next htext =>
    have hread := ServiceRegisterRequest.decode_encode_none hlen
      (mt ServiceRegisterRequest.text_iff.mp htext)
    simp [parseIf, Serializer.deserialize, hread]

/-- A discovery never passes for a registration: it has no host. -/
theorem parseRegister_discovery {d : ServiceDiscoveryRequest}
    (hlen : (ServiceDiscoveryRequest.codec.encode d).length ≤ maxLength) :
    parseIf ServiceRegisterRequest.codec ServiceRegisterRequest.Valid
      (ServiceDiscoveryRequest.codec.encode d) = none := by
  rw [ServiceDiscoveryRequest.encode_eq] at hlen ⊢
  by_cases htext : Text ServiceRegisterRequest.schema { serviceName := d.serviceName }
  · have hread := ServiceRegisterRequest.decode_encode hlen
      (ServiceRegisterRequest.typed_iff.mpr ⟨by norm_num, by norm_num⟩) htext
    simp [parseIf, Serializer.deserialize, hread, Option.filter, ServiceRegisterRequest.Valid]
  · have hread := ServiceRegisterRequest.decode_encode_none hlen htext
    simp [parseIf, Serializer.deserialize, hread]

theorem parseDiscovery_encode {d : ServiceDiscoveryRequest} (hvalid : d.Valid)
    (hlen : (ServiceDiscoveryRequest.codec.encode d).length ≤ maxLength) :
    parseIf ServiceDiscoveryRequest.codec ServiceDiscoveryRequest.Valid
        (ServiceDiscoveryRequest.codec.encode d) =
      if validUtf8 d.serviceName = true then some d else none := by
  rw [parseIf, Serializer.deserialize, ServiceDiscoveryRequest.decode_encode hlen]
  split
  · simp [Option.filter, hvalid]
  · rfl

/-- **The heartbeat parser is never the first to succeed.** -/
theorem parseHeartbeat_none {data : Bytes}
    (h : parseIf ServiceRegisterRequest.codec ServiceRegisterRequest.Valid data = none) :
    parseIf HeartbeatRequest.codec HeartbeatRequest.Valid data = none := by
  rw [parseIf, Serializer.deserialize] at h ⊢
  rw [HeartbeatRequest.decode_eq]
  cases hread : ServiceRegisterRequest.codec.decode data with
  | none => rfl
  | some r =>
    -- the two tests look at the same values
    have hvalid : r.asHeartbeat.Valid ↔ r.Valid := Iff.rfl
    rw [hread] at h
    by_cases hr : r.Valid
    · simp [Option.filter, hr] at h
    · simp [Option.filter, hvalid, hr]

end Parsers

/-! ### Which requests reach their handler -/

/-- The two servers differ in the cluster status request alone. -/
theorem DistributedRegistryServer.dispatch_eq (data : Bytes) :
    DistributedRegistryServer.dispatch data =
      (RegistryServer.dispatch data).or
        (if data = [] then none
        else (Serializer.deserialize ClusterStatusRequest.codec data).map fun _ =>
          .clusterStatus) := by
  unfold DistributedRegistryServer.dispatch RegistryServer.dispatch
  split
  · rfl
  · cases parseIf ServiceRegisterRequest.codec ServiceRegisterRequest.Valid data with
    | some r => rfl
    | none =>
      cases parseIf ServiceDiscoveryRequest.codec ServiceDiscoveryRequest.Valid data with
      | some d => rfl
      | none =>
        cases parseIf HeartbeatRequest.codec HeartbeatRequest.Valid data with
        | some b => rfl
        | none => rfl

/-- The handlers of the single server run in the distributed one, and no other handler
but that of the cluster status. -/
theorem DistributedRegistryServer.dispatch_eq_some_iff {data : Bytes} {call : ClientCall}
    (hcall : call ≠ .clusterStatus) :
    DistributedRegistryServer.dispatch data = some call ↔
      RegistryServer.dispatch data = some call := by
  rw [dispatch_eq]
  cases RegistryServer.dispatch data with
  | some call' => rw [Option.some_or]
  | none =>
    rw [Option.none_or]
    split
    · rfl
    · simp [Ne.symm hcall]

namespace RegistryServer

theorem dispatch_ne_heartbeat (data : Bytes) (b : HeartbeatRequest) :
    dispatch data ≠ some (.heartbeat b) := by
  unfold dispatch
  split
  · simp
  · cases hreg : parseIf ServiceRegisterRequest.codec ServiceRegisterRequest.Valid data with
    | some r => simp
    | none =>
      cases parseIf ServiceDiscoveryRequest.codec ServiceDiscoveryRequest.Valid data with
      | some d => simp
      | none => simp [parseHeartbeat_none hreg]

theorem dispatch_ne_clusterStatus (data : Bytes) : dispatch data ≠ some .clusterStatus := by
  unfold dispatch
  split
  · simp
  · cases parseIf ServiceRegisterRequest.codec ServiceRegisterRequest.Valid data with
    | some r => simp
    | none =>
      cases parseIf ServiceDiscoveryRequest.codec ServiceDiscoveryRequest.Valid data with
      | some d => simp
      | none => cases parseIf HeartbeatRequest.codec HeartbeatRequest.Valid data <;> simp

/-- A registration runs the handler of registrations on itself if its text is UTF-8,
and only then. -/
theorem dispatch_register {r : ServiceRegisterRequest} (hvalid : r.Valid)
    (htyped : Typed ServiceRegisterRequest.schema r)
    (hpass : TcpConnection.Passes (ServiceRegisterRequest.codec.encode r)) :
    dispatch (ServiceRegisterRequest.codec.encode r) = some (.serviceRegister r) ↔
      validUtf8 r.serviceName = true ∧ validUtf8 r.host = true := by
  have hparse := parseRegister_encode hvalid htyped (Serializer.le_maxLength_of_passes hpass)
  by_cases htext : validUtf8 r.serviceName = true ∧ validUtf8 r.host = true
  · rw [dispatch, if_neg hpass.1, hparse, if_pos htext]
    simp [htext]
  · -- the later parsers settle for handlers of other types
    rw [dispatch, if_neg hpass.1, hparse, if_neg htext]
    refine ⟨fun h => ?_, fun h => absurd h htext⟩
    cases hdisc : parseIf ServiceDiscoveryRequest.codec ServiceDiscoveryRequest.Valid
        (ServiceRegisterRequest.codec.encode r) with
    | some d => simp [hdisc] at h
    | none => simp [hdisc] at h

/-- A discovery runs the handler of discoveries on itself if its text is UTF-8, and
only then. -/
theorem dispatch_discovery {d : ServiceDiscoveryRequest} (hvalid : d.Valid)
    (hpass : TcpConnection.Passes (ServiceDiscoveryRequest.codec.encode d)) :
    dispatch (ServiceDiscoveryRequest.codec.encode d) = some (.serviceDiscovery d) ↔
      validUtf8 d.serviceName = true := by
  have hlen := Serializer.le_maxLength_of_passes hpass
  have hparse := parseDiscovery_encode hvalid hlen
  by_cases htext : validUtf8 d.serviceName = true
  · simp [dispatch, hpass.1, parseRegister_discovery hlen, hparse, htext]
  · simp [dispatch, hpass.1, parseRegister_discovery hlen, hparse, htext]

end RegistryServer

namespace ClientRequest

/-- What is not received runs no handler. -/
theorem dispatch_received (q : ClientRequest) :
    RegistryServer.dispatch q.received =
      if TcpConnection.Passes q.encode then RegistryServer.dispatch q.encode else none := by
  rw [received_eq]
  split <;> rfl

/-- The valid requests that reach their handler in the single server. -/
theorem registry_iff {q : ClientRequest} (hvalid : q.Valid) :
    RegistryServer.dispatch q.received = some q ↔ q.Reachable := by
  cases q with
  | heartbeat b => simp [Reachable, RegistryServer.dispatch_ne_heartbeat]
  | clusterStatus => simp [Reachable, RegistryServer.dispatch_ne_clusterStatus]
  | serviceRegister r =>
    rw [dispatch_received]
    by_cases hpass : TcpConnection.Passes (encode (.serviceRegister r))
    · rw [if_pos hpass]
      exact (RegistryServer.dispatch_register hvalid.1 hvalid.2 hpass).trans
        ⟨fun htext => ⟨hpass, htext⟩, fun h => h.2⟩
    · rw [if_neg hpass]
      exact ⟨fun h => by simp at h, fun h => absurd h.1 hpass⟩
  | serviceDiscovery d =>
    rw [dispatch_received]
    by_cases hpass : TcpConnection.Passes (encode (.serviceDiscovery d))
    · rw [if_pos hpass]
      exact (RegistryServer.dispatch_discovery hvalid hpass).trans
        ⟨fun htext => ⟨hpass, htext⟩, fun h => h.2⟩
    · rw [if_neg hpass]
      exact ⟨fun h => by simp at h, fun h => absurd h.1 hpass⟩

/-- The cluster status request is read as no request at all. -/
theorem received_clusterStatus : received .clusterStatus = [] := by
  rw [received_eq]
  exact ite_self _

/-- The distributed server adds the cluster status request to the parsers, but not to
the requests that reach their handler. -/
theorem distributed_iff {q : ClientRequest} (hvalid : q.Valid) :
    DistributedRegistryServer.dispatch q.received = some q ↔ q.Reachable := by
  rw [← registry_iff hvalid]
  by_cases hq : q = .clusterStatus
  · subst hq
    rw [received_clusterStatus]
    exact Iff.rfl
  · exact DistributedRegistryServer.dispatch_eq_some_iff hq

/-- **The requests that reach their handler**, in either server: registrations and
discoveries whose bytes pass a frame and whose text is UTF-8. -/
theorem reaches_iff (q : ClientRequest) (hvalid : q.Valid) :
    (RegistryServer.dispatch q.received = some q ↔ q.Reachable) ∧
      (DistributedRegistryServer.dispatch q.received = some q ↔ q.Reachable) :=
  ⟨registry_iff hvalid, distributed_iff hvalid⟩

/-- The registration of an instance of service `s`. -/
def sampleRegister : ServiceRegisterRequest where
  serviceName := utf8 "s"
  host := utf8 "h"
  port := 80

theorem reaches_sampleRegister :
    DistributedRegistryServer.dispatch (received (.serviceRegister sampleRegister)) =
      some (.serviceRegister sampleRegister) :=
  (reaches_iff (.serviceRegister sampleRegister)
    ⟨by decide, ServiceRegisterRequest.typed_iff.mpr (by decide)⟩).2.mpr
    ⟨by decide, by decide, by decide⟩

/-- A heartbeat of that instance runs the handler of registrations, and a cluster
status request runs none, in both servers. -/
theorem sampleHeartbeat_misrouted :
    Valid (.heartbeat sampleRegister.asHeartbeat) ∧
      RegistryServer.dispatch (received (.heartbeat sampleRegister.asHeartbeat)) =
        some (.serviceRegister sampleRegister) ∧
      DistributedRegistryServer.dispatch (received (.heartbeat sampleRegister.asHeartbeat)) =
        some (.serviceRegister sampleRegister) ∧
      DistributedRegistryServer.dispatch (received .clusterStatus) = none ∧
      ¬ (∀ q : ClientRequest, q.Valid → DistributedRegistryServer.dispatch q.received = some q) ∧
      ¬ ∀ q : ClientRequest, q.Valid → q ≠ .clusterStatus →
        RegistryServer.dispatch q.received = some q := by
  have hvalid : Valid (.heartbeat sampleRegister.asHeartbeat) :=
    ⟨by decide, HeartbeatRequest.typed_iff.mpr (by decide)⟩
  have hreg : RegistryServer.dispatch (received (.heartbeat sampleRegister.asHeartbeat)) =
      some (.serviceRegister sampleRegister) := by
    rw [dispatch_received, if_pos (by decide)]
    exact (RegistryServer.dispatch_register (r := sampleRegister) (by decide)
      (ServiceRegisterRequest.typed_iff.mpr (by decide)) (by decide)).mpr (by decide)
  have hdist : DistributedRegistryServer.dispatch
      (received (.heartbeat sampleRegister.asHeartbeat)) =
        some (.serviceRegister sampleRegister) := by
    rw [DistributedRegistryServer.dispatch_eq, hreg]
    rfl
  refine ⟨hvalid, hreg, hdist, ?_, fun h => ?_, fun h => ?_⟩
  · rw [received_clusterStatus]
    rfl
  · have hgood := h _ hvalid
    rw [hdist] at hgood
    simp at hgood
  · have hgood := h _ hvalid (by simp)
    rw [hreg] at hgood
    simp at hgood

end ClientRequest
