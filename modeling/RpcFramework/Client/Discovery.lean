import RpcFramework.Common.ConnectionPool
import RpcFramework.Registry.RegistryServer
import RpcFramework.Registry.Snapshot

/-!
# Discoveries over pooled connections

A client asks the registry for the instances of a service on a connection from its pool,
and puts the connection back when it has the answer.  The registry answers one message on a
connection and is done with it.  Neither end tells the other: to the pool a connection looks
as good as new.

The calls of a client come one after the other; in between, and between any two sections
of a call, the registry may handle what others send and sweep its services, and the pool
may be cleaned up.

## Main definitions

* `RegistryServer.handleConnection` — what the registry does with a connection.
* `RpcClient.readEndpoints` — what a call makes of the answer.
* `Discovery.State`, `Discovery.step` — the system `discoveries`.
* `Discovery.Reconnects` — a call finds no idle connection in the pool, and room.

## Main results

* `Discovery.exchange_fresh` — a new connection brings the answer.
* `Discovery.exchange_spent` — a connection that was answered on brings none.
* `Discovery.discoveries_current_iff` — **when every call returns the current instances.**
-/

open Rpc Wire

namespace RegistryServer

/-- `handleConnection`: one message is read, and what is sent in answer to it, if anything. -/
def handleConnection (s : RegistryServer) (data : Bytes) (now : ℤ) :
    RegistryServer × Option Bytes :=
  match dispatch data with
  | some (.serviceRegister request) =>
      let (s', response) := s.handleServiceRegister request now
      (s', some (Serializer.serialize ServiceRegisterResponse.codec response))
  | some (.serviceDiscovery request) =>
      (s, some (Serializer.serialize ServiceDiscoveryResponse.codec
        (s.handleServiceDiscovery request)))
  | some (.heartbeat request) =>
      let (s', response) := s.handleHeartbeat request now
      (s', some (Serializer.serialize HeartbeatResponse.codec response))
  | some .clusterStatus => (s, none)
  | none => (s, none)

end RegistryServer

namespace RpcClient

/-- An endpoint of a service, but for the time it was cached at. -/
structure ServiceEndpoint where
  host : Bytes
  port : ℤ
  deriving DecidableEq, Repr

def endpoints (response : ServiceDiscoveryResponse) : List ServiceEndpoint :=
  response.services.map fun service => ⟨service.host, service.port⟩

/-- `discoverServiceFromRegistry` from `receive` to the endpoints, or the text of the
exception. -/
def readEndpoints (data : Bytes) : Except Bytes (List ServiceEndpoint) :=
  if data = [] then .error (utf8 "Empty response from registry")
  else
    match Serializer.deserialize ServiceDiscoveryResponse.codec data with
    | none => .error (utf8 "Failed to deserialize discovery response")
    | some response => .ok (endpoints response)

end RpcClient

namespace Discovery

open RpcClient

/-- Where a call is between two of its sections. -/
inductive Phase where
  | outside
  | acquiring (serviceName : Bytes)
  | acquired (serviceName : Bytes) (c : ℕ)
  | releasing (c : ℕ)
  deriving DecidableEq, Repr

/-- What a call returned, and what it should have. -/
structure Call where
  returned : List ServiceEndpoint
  current : List ServiceEndpoint
  deriving DecidableEq, Repr

structure State where
  /-- The client's pool for the address of the registry. -/
  pool : ConnectionPool.State := {}
  /-- The client's end of every connection. -/
  connections : ℕ → TcpConnection := fun _ => {}
  /-- The connections whose handler has returned, so that the registry has closed its end. -/
  handled : ℕ → Bool := fun _ => false
  registry : RegistryServer := {}
  phase : Phase := .outside
  calls : List Call := []

/-- Times are clock readings; `start` is the time at which a call begins to acquire. -/
inductive Action where
  | call (serviceName : Bytes) (start now : ℤ)
  | awake (now : ℤ)
  | connected (now : ℤ)
  | exchange (now : ℤ)
  | release (now : ℤ)
  | cleanup (now : ℕ → ℤ)
  /-- The registry handles a message on a connection of somebody else. -/
  | handle (data : Bytes) (now : ℤ)
  | checkHeartbeat (now : ℤ)

namespace State

/-- The instances of the service at the registry. -/
def current (s : State) (serviceName : Bytes) : List ServiceEndpoint :=
  endpoints (s.registry.handleServiceDiscovery { serviceName := serviceName })

/-- `isConnectionValid`: the socket has no error pending, whether or not the other end has
closed the connection. -/
def valid (s : State) (c : ℕ) : Bool := (s.connections c).connected

/-- An exception ends the call, which returns no endpoints.  The connection is not released. -/
def throw (s : State) (serviceName : Bytes) : State :=
  { s with phase := .outside, calls := ⟨[], s.current serviceName⟩ :: s.calls }

/-- A section of `acquire`. -/
def acquire (config : ConnectionPool.Config) (s : State) (serviceName : Bytes)
    (timeoutTime now : ℤ) : State :=
  let s' := { s with pool := ConnectionPool.acquire config s.pool 0 timeoutTime now s.valid }
  match (s.pool.pool.takeIdle now s.valid s.pool.pool.idleConnections).2 with
  | some c => { s' with phase := .acquired serviceName c }
  | none =>
      match s'.pool.threads 0 with
      | .outside => s'.throw serviceName
      | _ => { s' with phase := .acquiring serviceName }

/-- The client's end of the connection after the request was sent, and the registry then.
The handler of the connection answers if it has not returned yet. -/
def answered (s : State) (c : ℕ) (conn : TcpConnection) (now : ℤ) :
    TcpConnection × RegistryServer :=
  if s.handled c then (conn, s.registry)
  else
    let (registry, response) :=
      s.registry.handleConnection (TcpConnection.peerOf conn).receive now
    match response with
    | some response =>
        ({ conn with
            incoming := conn.incoming ++ (({} : TcpConnection).send response).2.outgoing },
          registry)
    | none => (conn, registry)

def request (serviceName : Bytes) : Bytes :=
  Serializer.serialize ServiceDiscoveryRequest.codec { serviceName := serviceName }

/-- The call from `send` to the endpoints. -/
def exchange (s : State) (serviceName : Bytes) (c : ℕ) (now : ℤ) : State :=
  let (sent, conn) := (s.connections c).send (request serviceName)
  if sent then
    let (conn, registry) := s.answered c conn now
    let s' :=
      { s with
        connections := Function.update s.connections c conn.afterReceive
        handled := Function.update s.handled c true
        registry := registry }
    match readEndpoints conn.receive with
    | .ok endpoints =>
        { s' with
          phase := .releasing c
          calls := ⟨endpoints, s.current serviceName⟩ :: s.calls }
    | .error _ => s'.throw serviceName
  else s.throw serviceName

end State

open State

/-- A reading of the clock, in nanoseconds. -/
def Reading (now : ℤ) : Prop := InRange 64 now

instance : DecidablePred Reading := fun _ => inferInstanceAs (Decidable (InRange 64 _))

def step (config : ConnectionPool.Config) (s : State) : Action → Option State
  | .call serviceName start now =>
      match s.phase with
      | .outside => some (s.acquire config serviceName (start + config.acquireTimeout) now)
      | _ => none
  | .awake now =>
      match s.phase, s.pool.threads 0 with
      | .acquiring serviceName, .waiting timeoutTime =>
          some (s.acquire config serviceName timeoutTime now)
      | _, _ => none
  -- the registry is running, so that connecting to it succeeds
  | .connected now =>
      match s.phase with
      | .acquiring serviceName =>
          (ConnectionPool.step config s.pool (.connected 0 now)).map fun pool =>
            { s with
              pool := pool
              connections := Function.update s.connections s.pool.next {}
              handled := Function.update s.handled s.pool.next false
              phase := .acquired serviceName s.pool.next }
      | _ => none
  | .exchange now =>
      match s.phase with
      | .acquired serviceName c =>
          if Reading now then some (s.exchange serviceName c now) else none
      | _ => none
  | .release now =>
      match s.phase with
      | .releasing c =>
          (ConnectionPool.step config s.pool (.release c now (s.valid c))).map fun pool =>
            { s with pool := pool, phase := .outside }
      | _ => none
  | .cleanup now =>
      (ConnectionPool.step config s.pool (.cleanup now)).map fun pool => { s with pool := pool }
  | .handle data now =>
      if Reading now then some { s with registry := (s.registry.handleConnection data now).1 }
      else none
  | .checkHeartbeat now => some { s with registry := s.registry.checkHeartbeat now }

/-- The registry has an instance of the service that is asked for. -/
def Live (s : State) : Action → Prop
  | .call serviceName _ _ => s.current serviceName ≠ []
  | .awake _ | .exchange _ =>
      match s.phase with
      | .acquiring serviceName | .acquired serviceName _ => s.current serviceName ≠ []
      | _ => True
  | _ => True

instance (s : State) (a : Action) : Decidable (Live s a) := by
  unfold Live
  split
  · infer_instance
  · split <;> infer_instance
  · split <;> infer_instance
  · infer_instance

end Discovery

open Discovery in
/-- A client and a running registry that has an instance of whatever is asked for. -/
def discoveries (config : ConnectionPool.Config) : System State Action :=
  System.restrict { init := {}, step := Discovery.step config } Live

namespace Discovery

open RpcClient State

/-- The request for the service and the answer to it fit in a frame. -/
def State.Fits (s : State) (serviceName : Bytes) : Prop :=
  TcpConnection.Passes (ServiceDiscoveryRequest.codec.encode { serviceName := serviceName }) ∧
    TcpConnection.Passes (ServiceDiscoveryResponse.codec.encode
      (s.registry.handleServiceDiscovery { serviceName := serviceName }))

instance (s : State) (serviceName : Bytes) : Decidable (s.Fits serviceName) :=
  inferInstanceAs (Decidable (_ ∧ _))

/-- A call begins with no idle connection in the pool and room for a new one, and its two
messages fit in a frame. -/
def Reconnects (config : ConnectionPool.Config) (s : State) : Action → Prop
  | .call _ _ _ =>
      s.pool.pool.idleConnections = [] ∧
        s.pool.pool.allConnections.length < config.maxConnectionsPerHost
  | .exchange _ =>
      match s.phase with
      | .acquired serviceName _ => s.Fits serviceName
      | _ => True
  | _ => True

instance (config : ConnectionPool.Config) (s : State) (a : Action) :
    Decidable (Reconnects config s a) := by
  unfold Reconnects
  split
  · infer_instance
  · split <;> infer_instance
  · infer_instance

/-- Every call returned the instances the registry had. -/
def AllCurrent (s : State) : Prop := ∀ call ∈ s.calls, call.returned = call.current

/-! ### What the registry lists -/

/-- An instance that could have been read off a registration. -/
structure ListedInstance (i : ServiceInstance) : Prop where
  host : validUtf8 i.host = true
  port : InRange 32 i.port
  lastHeartbeat : InRange 64 i.lastHeartbeat

/-- The services of a registry that got all of them from registrations it has read. -/
def Listed (s : RegistryServer) : Prop :=
  RegistryStateMachine.AllServices (fun name => name ≠ [] ∧ validUtf8 name = true) ListedInstance
    ⟨s.services⟩

section Listed

variable {s : RegistryServer} {now : ℤ}

theorem ListedInstance.stamp {i : ServiceInstance} (hnow : Reading now) (h : ListedInstance i) :
    ListedInstance { i with lastHeartbeat := now } :=
  ⟨h.host, h.port, hnow⟩

/-- Whatever the registry reads, its services stay as they should be. -/
theorem Listed.handleConnection (h : Listed s) (data : Bytes) (hnow : Reading now) :
    Listed (s.handleConnection data now).1 := by
  unfold RegistryServer.handleConnection
  cases hcall : RegistryServer.dispatch data with
  | none => exact h
  | some call =>
    cases call with
    | serviceRegister request =>
      have hdist := (DistributedRegistryServer.dispatch_eq_some_iff (by simp)).mpr hcall
      obtain ⟨⟨hname, -, -⟩, hread⟩ := DistributedRegistryServer.of_dispatch_register hdist
      have hservices := RegistryServer.services_handleServiceRegister (s := s)
        (m := ⟨s.services⟩) rfl request now
      show Listed (s.handleServiceRegister request now).1
      rw [Listed, hservices]
      exact h.registerService ⟨hname, hread.serviceName⟩ ⟨hread.host, hread.port, hnow⟩
        fun i hi => hi.stamp hnow
    | serviceDiscovery request => exact h
    | heartbeat request =>
      have hservices := RegistryServer.services_handleHeartbeat (s := s)
        (m := ⟨s.services⟩) rfl request now
      show Listed (s.handleHeartbeat request now).1
      rw [Listed, hservices]
      exact h.updateHeartbeat fun i hi => hi.stamp hnow
    | clusterStatus => exact h

theorem Listed.checkHeartbeat (h : Listed s) (now : ℤ) : Listed (s.checkHeartbeat now) := by
  rw [Listed, RegistryServer.services_checkHeartbeat (m := ⟨s.services⟩) rfl now]
  exact h.removeExpiredServices

variable {serviceName : Bytes}

/-- A service that is found has a name that can be asked for. -/
theorem Listed.name_valid (h : Listed s)
    (hlive : (s.handleServiceDiscovery { serviceName := serviceName }).services ≠ []) :
    serviceName ≠ [] ∧ validUtf8 serviceName = true := by
  unfold RegistryServer.handleServiceDiscovery at hlive
  cases hl : s.services.lookup serviceName with
  | none =>
    rw [hl] at hlive
    exact absurd rfl hlive
  | some instances => exact (h.of_lookup hl).1

/-- What is answered of an instance can be read back. -/
theorem Listed.response (h : Listed s) :
    ∀ info ∈ (s.handleServiceDiscovery { serviceName := serviceName }).services,
      Typed ServiceInfo.schema info ∧ Text ServiceInfo.schema info := by
  intro info hinfo
  rw [RegistryServer.handleServiceDiscovery_eq (m := ⟨s.services⟩) rfl] at hinfo
  obtain ⟨i, hi, rfl⟩ := List.mem_map.mp hinfo
  have hlisted : ListedInstance i := h.forall_lookup i (List.mem_of_mem_filter hi)
  exact ⟨ServiceInfo.typed_iff.mpr
    ⟨hlisted.port, RegistryStateMachine.inRange_tdiv hlisted.lastHeartbeat⟩,
    ServiceInfo.text_iff.mpr hlisted.host⟩

end Listed

/-! ### The exchange -/

/-- Nothing was sent on the connection yet, in either direction. -/
def State.Fresh (s : State) (c : ℕ) : Prop := s.handled c = false ∧ s.connections c = {}

/-- The registry has answered on the connection, and the answer was read. -/
def State.Spent (s : State) (c : ℕ) : Prop :=
  s.handled c = true ∧ (s.connections c).connected = true ∧ (s.connections c).incoming = []

section Exchange

variable {s : State} {serviceName : Bytes} {c : ℕ} {now : ℤ}

/-- Reading looks at nothing but the stream, while the connection is up. -/
theorem readMessage_of_connected {conn : TcpConnection} (h : conn.connected = true) :
    conn.readMessage = ({ incoming := conn.incoming } : TcpConnection).readMessage := by
  obtain ⟨connected, incoming, outgoing⟩ := conn
  simp only at h
  subst h
  rfl

/-- **A connection that was answered on brings no second answer**: the handler has
returned, and the call ends in an exception. -/
theorem exchange_spent (serviceName : Bytes) (now : ℤ) (h : s.Spent c) :
    ∃ connections, s.exchange serviceName c now =
      { s with
        connections := Function.update s.connections c connections
        handled := Function.update s.handled c true
        phase := .outside
        calls := ⟨[], s.current serviceName⟩ :: s.calls } := by
  obtain ⟨hhandled, hconn, hincoming⟩ := h
  let conn : TcpConnection :=
    { s.connections c with
      outgoing := (s.connections c).outgoing ++ TcpConnection.frame (request serviceName) }
  have hsend : (s.connections c).send (request serviceName) = (true, conn) := if_pos hconn
  have hanswered : s.answered c conn now = (conn, s.registry) := if_pos hhandled
  have hreceive : conn.receive = [] := by
    have hread : conn.readMessage = ({ incoming := [] } : TcpConnection).readMessage := by
      rw [@readMessage_of_connected conn hconn]
      exact congrArg (fun stream => ({ incoming := stream } : TcpConnection).readMessage) hincoming
    rw [TcpConnection.receive, hread]
    rfl
  refine ⟨conn.afterReceive, ?_⟩
  simp only [exchange, hsend, hanswered, hreceive, if_true]
  rfl

/-- On a new connection the registry is given what was sent, if it fits in a frame. -/
theorem answered_fresh (now : ℤ) (h : s.Fresh c) (hlisted : Listed s.registry)
    (hlive : s.current serviceName ≠ []) :
    s.answered c (({} : TcpConnection).send (request serviceName)).2 now =
      ({ outgoing := TcpConnection.frame (request serviceName)
         incoming :=
          if TcpConnection.Passes
              (ServiceDiscoveryRequest.codec.encode { serviceName := serviceName }) then
            TcpConnection.frame (Serializer.serialize ServiceDiscoveryResponse.codec
              (s.registry.handleServiceDiscovery { serviceName := serviceName }))
          else [] }, s.registry) := by
  have hlive' : (s.registry.handleServiceDiscovery { serviceName := serviceName }).services ≠ [] :=
    fun hnil => hlive (by rw [current, endpoints, hnil]; rfl)
  obtain ⟨hname, htext⟩ := hlisted.name_valid hlive'
  have hreceive : (TcpConnection.peerOf
      (({} : TcpConnection).send (request serviceName)).2).receive = _ :=
    Serializer.transmit_serialize ServiceDiscoveryRequest.codec { serviceName := serviceName }
  rw [answered, if_neg (by rw [h.1]; decide), hreceive]
  by_cases hpass : TcpConnection.Passes
      (ServiceDiscoveryRequest.codec.encode { serviceName := serviceName })
  · have hdispatch := (RegistryServer.dispatch_discovery (d := { serviceName := serviceName })
      hname hpass).mpr htext
    simp only [if_pos hpass, RegistryServer.handleConnection, hdispatch]
    rfl
  · simp only [if_neg hpass]
    rfl

/-- **A new connection brings the answer** exactly where both messages fit in a frame. -/
theorem exchange_fresh (now : ℤ) (h : s.Fresh c) (hlisted : Listed s.registry)
    (hlive : s.current serviceName ≠ []) :
    if s.Fits serviceName then
      s.exchange serviceName c now =
        { s with
          connections := Function.update s.connections c
            { outgoing := TcpConnection.frame (request serviceName) }
          handled := Function.update s.handled c true
          phase := .releasing c
          calls := ⟨s.current serviceName, s.current serviceName⟩ :: s.calls }
    else ∃ connections, s.exchange serviceName c now =
      { s with
        connections := Function.update s.connections c connections
        handled := Function.update s.handled c true
        phase := .outside
        calls := ⟨[], s.current serviceName⟩ :: s.calls } := by
  have hsend : (s.connections c).send (request serviceName) =
      (true, (({} : TcpConnection).send (request serviceName)).2) := by
    rw [h.2]
    rfl
  have hanswered := answered_fresh now h hlisted hlive
  -- whatever comes back is read off an empty stream, or off the frame of the answer
  have hnothing : ∀ incoming outgoing : Bytes,
      ({ incoming := incoming } : TcpConnection).receive = [] →
      s.answered c (({} : TcpConnection).send (request serviceName)).2 now =
        ({ outgoing := outgoing, incoming := incoming }, s.registry) →
      ∃ connections, s.exchange serviceName c now =
        { s with
          connections := Function.update s.connections c connections
          handled := Function.update s.handled c true
          phase := .outside
          calls := ⟨[], s.current serviceName⟩ :: s.calls } := by
    intro incoming outgoing hreceive hconn
    have hreceive' : ({ outgoing := outgoing, incoming := incoming } : TcpConnection).receive =
        [] := hreceive
    refine ⟨({ outgoing := outgoing, incoming := incoming } : TcpConnection).afterReceive, ?_⟩
    simp only [exchange, hsend, hconn, hreceive', if_true]
    rfl
  split
  · next hpass =>
    obtain ⟨hrequest, hresponse⟩ := hpass
    rw [if_pos hrequest, Serializer.serialize_of_passes hresponse] at hanswered
    have hread := TcpConnection.readMessage_frame (ServiceDiscoveryResponse.codec.encode
      (s.registry.handleServiceDiscovery { serviceName := serviceName })) []
    have hlen : (ServiceDiscoveryResponse.codec.encode
        (s.registry.handleServiceDiscovery { serviceName := serviceName })).length % 2 ^ 32 =
          (ServiceDiscoveryResponse.codec.encode
            (s.registry.handleServiceDiscovery { serviceName := serviceName })).length :=
      Nat.mod_eq_of_lt (lt_of_le_of_lt hresponse.2 (by norm_num [TcpConnection.maxMessage]))
    have hpos := List.length_pos_iff.mpr hresponse.1
    have hmax := hresponse.2
    rw [hlen, if_neg (by omega), List.take_length, List.drop_length, List.append_nil] at hread
    have hconn : ({ outgoing := TcpConnection.frame (request serviceName)
                    incoming := TcpConnection.frame (ServiceDiscoveryResponse.codec.encode
                      (s.registry.handleServiceDiscovery { serviceName := serviceName })) } :
        TcpConnection).readMessage = _ := hread
    have hdecode := ServiceDiscoveryResponse.decode_encode
      (fun info hinfo => (hlisted.response info hinfo).1)
      (fun info hinfo => (hlisted.response info hinfo).2)
      (Serializer.le_maxLength_of_passes hresponse)
    simp only [exchange, hsend, hanswered, if_true, TcpConnection.receive,
      TcpConnection.afterReceive, hconn, Option.elim_some, readEndpoints, hresponse.1, if_false,
      Serializer.deserialize, hdecode]
    rfl
  · next hpass =>
    by_cases hrequest : TcpConnection.Passes
        (ServiceDiscoveryRequest.codec.encode { serviceName := serviceName })
    · rw [if_pos hrequest] at hanswered
      refine hnothing _ _ ?_ hanswered
      have htransmit := Serializer.transmit_serialize ServiceDiscoveryResponse.codec
        (s.registry.handleServiceDiscovery { serviceName := serviceName })
      rw [if_neg fun hresponse => hpass ⟨hrequest, hresponse⟩] at htransmit
      exact htransmit
    · rw [if_neg hrequest] at hanswered
      exact hnothing _ _ rfl hanswered

end Exchange

/-! ### The pool between the calls -/

/-- A call in progress is at a new connection, or it is too late for it. -/
def PhaseInv (config : ConnectionPool.Config) (s : State) : Prop :=
  match s.phase with
  | .outside => s.pool.threads 0 = .outside
  | .acquiring _ =>
      (∃ timeoutTime, s.pool.threads 0 = .connecting timeoutTime) ∨
        (∃ timeoutTime, s.pool.threads 0 = .waiting timeoutTime) ∧
          s.pool.pool.idleConnections = [] ∧
          config.maxConnectionsPerHost ≤ s.pool.pool.allConnections.length
  | .acquired _ c =>
      s.pool.threads 0 = .outside ∧ c ∈ s.pool.held ∧ (s.Fresh c ∨ s.Spent c)
  | .releasing c => s.pool.threads 0 = .outside ∧ c ∈ s.pool.held ∧ s.Spent c

/-- What always holds: the idle connections are those of earlier calls. -/
structure Invariant (config : ConnectionPool.Config) (s : State) : Prop where
  pool : ConnectionPool.Invariant s.pool
  listed : Listed s.registry
  idle : ∀ c ∈ s.pool.pool.idleConnections, s.Spent c
  phase : PhaseInv config s

/-- The call in progress has not failed yet. -/
def OnTrack (s : State) : Prop :=
  match s.phase with
  | .outside => True
  | .acquiring _ => ∃ timeoutTime, s.pool.threads 0 = .connecting timeoutTime
  | .acquired _ c => s.Fresh c
  | .releasing _ => True

section Acquire

variable {config : ConnectionPool.Config} {s : State} {serviceName : Bytes}
  {timeoutTime now : ℤ}

/-- **An idle connection is taken**: it is valid, however the registry stands to it. -/
theorem acquire_idle {c : ℕ} {rest : List ℕ} (hidle : s.pool.pool.idleConnections = c :: rest)
    (hspent : s.Spent c) :
    s.acquire config serviceName timeoutTime now =
      { s with
        pool :=
          { s.pool with
            pool :=
              { s.pool.pool with
                idleConnections := rest
                objects := Function.update s.pool.pool.objects c ⟨now, true⟩
                activeCount := s.pool.pool.activeCount + 1 }
            threads := Function.update s.pool.threads 0 .outside
            held := c :: s.pool.held }
        phase := .acquired serviceName c } := by
  have hvalid : s.valid c = true := hspent.2.1
  have htake : s.pool.pool.takeIdle now s.valid (c :: rest) =
      ({ s.pool.pool with
          idleConnections := rest
          objects := Function.update s.pool.pool.objects c ⟨now, true⟩
          activeCount := s.pool.pool.activeCount + 1 }, some c) := by
    rw [ConnectionPool.HostPool.takeIdle, if_pos hvalid]
  simp only [State.acquire, ConnectionPool.acquire, hidle, htake]

/-- Without one, the call connects if there is room. -/
theorem acquire_connect (hidle : s.pool.pool.idleConnections = [])
    (hroom : s.pool.pool.allConnections.length < config.maxConnectionsPerHost) :
    s.acquire config serviceName timeoutTime now =
      { s with
        pool :=
          { s.pool with
            threads := Function.update s.pool.threads 0 (.connecting timeoutTime) }
        phase := .acquiring serviceName } := by
  simp only [State.acquire, ConnectionPool.acquire, hidle, ConnectionPool.HostPool.takeIdle,
    if_pos hroom, Function.update_self]

/-- Without room either, it waits, or gives up with an exception. -/
theorem acquire_full (hidle : s.pool.pool.idleConnections = [])
    (hfull : config.maxConnectionsPerHost ≤ s.pool.pool.allConnections.length) :
    s.acquire config serviceName timeoutTime now =
      if timeoutTime ≤ now then
        { s with
          pool := { s.pool with threads := Function.update s.pool.threads 0 .outside }
          phase := .outside
          calls := ⟨[], s.current serviceName⟩ :: s.calls }
      else
        { s with
          pool :=
            { s.pool with threads := Function.update s.pool.threads 0 (.waiting timeoutTime) }
          phase := .acquiring serviceName } := by
  by_cases htime : timeoutTime ≤ now
  · simp only [State.acquire, ConnectionPool.acquire, hidle, ConnectionPool.HostPool.takeIdle,
      if_neg (Nat.not_lt.mpr hfull), ConnectionPool.waitOrGiveUp, if_pos htime,
      Function.update_self]
    rfl
  · simp only [State.acquire, ConnectionPool.acquire, hidle, ConnectionPool.HostPool.takeIdle,
      if_neg (Nat.not_lt.mpr hfull), ConnectionPool.waitOrGiveUp, if_neg htime,
      Function.update_self]

theorem pool_acquire (config : ConnectionPool.Config) (s : State) (serviceName : Bytes)
    (timeoutTime now : ℤ) :
    (s.acquire config serviceName timeoutTime now).pool =
      ConnectionPool.acquire config s.pool 0 timeoutTime now s.valid := by
  simp only [State.acquire]
  split
  · rfl
  · split <;> rfl

/-- All calls so far returned what they should, and the one in progress may. -/
def Good (s : State) : Prop := AllCurrent s ∧ OnTrack s

/-- No call returns nothing where there is something. -/
theorem not_good_of_throw {calls : List Call}
    (hcalls : s.calls = ⟨[], s.current serviceName⟩ :: calls)
    (hlive : s.current serviceName ≠ []) : ¬ Good s := by
  rintro ⟨hall, -⟩
  exact hlive (hall _ (hcalls ▸ List.mem_cons_self)).symm

/-- **A section of `acquire`** is on track where it connects. -/
theorem acquire_spec (timeoutTime now : ℤ) (h : Invariant config s)
    (hlive : s.current serviceName ≠ []) :
    Invariant config (s.acquire config serviceName timeoutTime now) ∧
      (Good (s.acquire config serviceName timeoutTime now) ↔
        AllCurrent s ∧ s.pool.pool.idleConnections = [] ∧
          s.pool.pool.allConnections.length < config.maxConnectionsPerHost) := by
  have hpool := pool_acquire config s serviceName timeoutTime now ▸
    h.pool.acquire 0 timeoutTime now s.valid
  have hthread : ∀ thread, Function.update s.pool.threads 0 thread 0 = thread :=
    fun thread => Function.update_self _ _ _
  cases hidle : s.pool.pool.idleConnections with
  | cons c rest =>
    have hspent : s.Spent c := h.idle c (hidle ▸ List.mem_cons_self)
    rw [acquire_idle hidle hspent] at hpool ⊢
    refine ⟨⟨hpool, h.listed, ?_, ?_⟩, ?_⟩
    · intro x hx
      exact h.idle x (hidle ▸ List.mem_cons_of_mem _ hx)
    · exact ⟨hthread _, List.mem_cons_self, Or.inr hspent⟩
    · -- the handler of the connection has returned
      refine iff_of_false ?_ (by simp)
      rintro ⟨-, hfresh⟩
      have hnot : s.handled c = false := hfresh.1
      rw [hspent.1] at hnot
      exact absurd hnot (by decide)
  | nil =>
    by_cases hroom : s.pool.pool.allConnections.length < config.maxConnectionsPerHost
    · rw [acquire_connect hidle hroom] at hpool ⊢
      refine ⟨⟨hpool, h.listed, h.idle, ?_⟩, ?_⟩
      · exact Or.inl ⟨timeoutTime, hthread _⟩
      · refine ⟨fun hgood => ⟨hgood.1, rfl, hroom⟩, fun hall => ⟨hall.1, ?_⟩⟩
        exact ⟨timeoutTime, hthread _⟩
    · have hfull := Nat.not_lt.mp hroom
      rw [acquire_full hidle hfull] at hpool ⊢
      by_cases htime : timeoutTime ≤ now
      · rw [if_pos htime] at hpool ⊢
        refine ⟨⟨hpool, h.listed, h.idle, hthread _⟩, ?_⟩
        exact iff_of_false (not_good_of_throw rfl hlive) fun hall => hroom hall.2.2
      · rw [if_neg htime] at hpool ⊢
        refine ⟨⟨hpool, h.listed, h.idle, ?_⟩, ?_⟩
        · exact Or.inr ⟨⟨timeoutTime, hthread _⟩, hidle, hfull⟩
        · refine iff_of_false ?_ fun hall => hroom hall.2.2
          rintro ⟨-, t, ht⟩
          exact absurd ((hthread _).symm.trans ht) (by simp)

end Acquire

/-! ### Step by step -/

section Step

variable {config : ConnectionPool.Config} {s t : State}

/-- A connection in use is not an idle one. -/
theorem Invariant.ne_of_held (h : Invariant config s) {c x : ℕ} (hc : c ∈ s.pool.held)
    (hx : x ∈ s.pool.pool.idleConnections) : x ≠ c := by
  rintro rfl
  have hfree := ((h.pool.pool.idle_iff x).mp hx).2
  rw [(h.pool.held_used x hc).2] at hfree
  exact absurd hfree (by decide)

/-- What happens on one connection is nothing to the others. -/
theorem State.Spent.update {c x : ℕ} (h : s.Spent x) (hne : x ≠ c) {conn : TcpConnection}
    {handled : Bool} (hconn : t.connections = Function.update s.connections c conn)
    (hhandled : t.handled = Function.update s.handled c handled) : t.Spent x := by
  rw [Spent, hconn, hhandled, Function.update_of_ne hne, Function.update_of_ne hne]
  exact h

theorem Invariant.idle_update (h : Invariant config s) {c : ℕ} (hc : c ∈ s.pool.held)
    {t : State} (hidle : t.pool = s.pool) {conn : TcpConnection}
    (hconn : t.connections = Function.update s.connections c conn)
    (hhandled : t.handled = Function.update s.handled c true) :
    ∀ x ∈ t.pool.pool.idleConnections, t.Spent x := by
  intro x hx
  rw [hidle] at hx
  exact (h.idle x hx).update (h.ne_of_held hc hx) hconn hhandled

/-- **The exchange** goes well on a new connection, if the messages fit in a frame. -/
theorem exchange_spec (h : Invariant config s) {serviceName : Bytes} {c : ℕ} {now : ℤ}
    (hphase : s.phase = .acquired serviceName c) (hlive : s.current serviceName ≠ []) :
    Invariant config (s.exchange serviceName c now) ∧
      (Good (s.exchange serviceName c now) ↔
        Good s ∧ Reconnects config s (.exchange now)) := by
  have hp := h.phase
  rw [PhaseInv, hphase] at hp
  obtain ⟨hthread, hheld, hconn⟩ := hp
  have htrack : OnTrack s ↔ s.Fresh c := by rw [OnTrack, hphase]
  have hguard : Reconnects config s (.exchange now) ↔ s.Fits serviceName := by
    rw [Reconnects, hphase]
  -- the two ways in which the call may end in an exception
  have hthrow : ∀ connections, s.exchange serviceName c now =
      { s with
        connections := Function.update s.connections c connections
        handled := Function.update s.handled c true
        phase := .outside
        calls := ⟨[], s.current serviceName⟩ :: s.calls } →
      Invariant config (s.exchange serviceName c now) ∧
        ¬ Good (s.exchange serviceName c now) := by
    intro connections heq
    rw [heq]
    exact ⟨⟨h.pool, h.listed, h.idle_update hheld rfl rfl rfl, hthread⟩,
      not_good_of_throw rfl hlive⟩
  rcases hconn with hfresh | hspent
  · have hex := exchange_fresh now hfresh h.listed hlive
    split at hex
    · next hpass =>
      rw [hex, hguard]
      refine ⟨⟨h.pool, h.listed, h.idle_update hheld rfl rfl rfl, hthread, hheld, ?_⟩, ?_⟩
      · simp [Spent]
      · constructor
        · rintro ⟨hall, -⟩
          exact ⟨⟨fun call hcall => hall call (List.mem_cons_of_mem _ hcall), htrack.mpr hfresh⟩,
            hpass⟩
        · rintro ⟨⟨hall, -⟩, -⟩
          exact ⟨List.forall_mem_cons.mpr ⟨rfl, hall⟩, trivial⟩
    · next hpass =>
      obtain ⟨connections, heq⟩ := hex
      obtain ⟨hinv, hbad⟩ := hthrow connections heq
      exact ⟨hinv, iff_of_false hbad fun hgood => hpass (hguard.mp hgood.2)⟩
  · obtain ⟨connections, heq⟩ := exchange_spent serviceName now hspent
    obtain ⟨hinv, hbad⟩ := hthrow connections heq
    refine ⟨hinv, iff_of_false hbad ?_⟩
    rintro ⟨⟨-, hfresh⟩, -⟩
    have hnot := (htrack.mp hfresh).1
    rw [hspent.1] at hnot
    exact absurd hnot (by decide)

/-- A change at the registry is none to the calls. -/
theorem registry_spec (h : Invariant config s) {registry : RegistryServer}
    (hlisted : Listed registry) :
    Invariant config { s with registry := registry } ∧
      (Good { s with registry := registry } ↔ Good s) :=
  ⟨⟨h.pool, hlisted, h.idle, h.phase⟩, Iff.rfl⟩

/-- The cleanup adds nothing to the queue. -/
theorem cleanup_idle (h : Invariant config s) (now : ℕ → ℤ) :
    ∀ x ∈ (s.pool.pool.cleanup config now).idleConnections,
      x ∈ s.pool.pool.idleConnections := by
  intro x hx
  obtain ⟨hmem, hfree⟩ := List.mem_filter.mp hx
  rw [Bool.not_eq_true'] at hfree
  exact (h.pool.pool.idle_iff x).mpr ⟨List.mem_of_mem_filter hmem, hfree⟩

/-- The cleanup removes nothing from a pool without idle connections. -/
theorem cleanup_full (h : Invariant config s) (hidle : s.pool.pool.idleConnections = [])
    (now : ℕ → ℤ) :
    (s.pool.pool.cleanup config now).allConnections = s.pool.pool.allConnections := by
  refine List.filter_eq_self.mpr ?_
  intro x hx
  have hused : s.pool.pool.inUse x = true := by
    by_contra hfree
    rw [Bool.not_eq_true] at hfree
    have hmem := (h.pool.pool.idle_iff x).mpr ⟨hx, hfree⟩
    exact List.not_mem_nil (hidle ▸ hmem)
  rw [ConnectionPool.HostPool.keeps, hused, Bool.true_or]

theorem phaseInv_cleanup (h : Invariant config s) (now : ℕ → ℤ) :
    PhaseInv config { s with pool := { s.pool with pool := s.pool.pool.cleanup config now } } := by
  have hp := h.phase
  cases hphase : s.phase with
  | outside =>
    simp only [PhaseInv, hphase] at hp ⊢
    exact hp
  | acquired serviceName c =>
    simp only [PhaseInv, hphase] at hp ⊢
    exact hp
  | releasing c =>
    simp only [PhaseInv, hphase] at hp ⊢
    exact hp
  | acquiring serviceName =>
    simp only [PhaseInv, hphase] at hp ⊢
    rcases hp with hconnecting | ⟨hwaiting, hidle, hfull⟩
    · exact Or.inl hconnecting
    · have hsame := cleanup_full h hidle now
      refine Or.inr ⟨hwaiting, ?_, hsame ▸ hfull⟩
      rw [List.eq_nil_iff_forall_not_mem]
      intro x hx
      have hmem := cleanup_idle h now x hx
      rw [hidle] at hmem
      exact List.not_mem_nil hmem

/-- A call that waits has come too late: what is in the pool stays in use. -/
theorem awake_spec (h : Invariant config s) {serviceName : Bytes} {timeoutTime now : ℤ}
    (hphase : s.phase = .acquiring serviceName) (hthread : s.pool.threads 0 = .waiting timeoutTime)
    (hlive : s.current serviceName ≠ []) :
    Invariant config (s.acquire config serviceName timeoutTime now) ∧
      (Good (s.acquire config serviceName timeoutTime now) ↔
        Good s ∧ Reconnects config s (.awake now)) := by
  obtain ⟨hinv, hgood⟩ := acquire_spec timeoutTime now h hlive
  have hp := h.phase
  rw [PhaseInv, hphase] at hp
  refine ⟨hinv, hgood.trans (iff_of_false ?_ ?_)⟩
  · rcases hp with ⟨t, ht⟩ | ⟨-, -, hfull⟩
    · rw [hthread] at ht
      exact absurd ht (by simp)
    · exact fun hall => absurd hall.2.2 (Nat.not_lt.mpr hfull)
  · rintro ⟨⟨-, htrack⟩, -⟩
    rw [OnTrack, hphase] at htrack
    obtain ⟨t, ht⟩ := htrack
    rw [hthread] at ht
    exact absurd ht (by simp)

/-- **What a step does**: it keeps the invariant, and leaves the calls on track exactly
where they were and the step is as it should be. -/
theorem step_spec (h : Invariant config s) {a : Action} (hlive : Live s a)
    (hstep : step config s a = some t) :
    Invariant config t ∧ (Good t ↔ Good s ∧ Reconnects config s a) := by
  have hp := h.phase
  rw [PhaseInv] at hp
  cases a with
  | call serviceName start now =>
    simp only [step] at hstep
    split at hstep
    · next hphase =>
      rw [← Option.some.inj hstep]
      obtain ⟨hinv, hgood⟩ := acquire_spec (start + config.acquireTimeout) now h hlive
      have htrack : OnTrack s := by rw [OnTrack, hphase]; trivial
      exact ⟨hinv, hgood.trans ⟨fun hall => ⟨⟨hall.1, htrack⟩, hall.2⟩,
        fun hall => ⟨hall.1.1, hall.2⟩⟩⟩
    · exact absurd hstep (by simp)
  | awake now =>
    simp only [step] at hstep
    split at hstep
    · next serviceName timeoutTime hphase hthread =>
      rw [Live, hphase] at hlive
      exact Option.some.inj hstep ▸ awake_spec h hphase hthread hlive
    · exact absurd hstep (by simp)
  | connected now =>
    simp only [step] at hstep
    split at hstep
    · next serviceName hphase =>
      rw [hphase] at hp
      obtain ⟨pool, hpool, rfl⟩ := Option.map_eq_some_iff.mp hstep
      have hkeep := h.pool.step hpool
      cases ConnectionPool.step_cases hpool with
      | connected _ _ timeoutTime hthread =>
        have hthread' : Function.update s.pool.threads 0 .outside 0 = .outside :=
          Function.update_self _ _ _
        refine ⟨⟨hkeep, h.listed, ?_, hthread', List.mem_cons_self, Or.inl ?_⟩, ?_⟩
        · -- the number of the connection is new
          intro x hx
          have hin := ((h.pool.pool.idle_iff x).mp hx).1
          exact (h.idle x hx).update (Nat.ne_of_lt (h.pool.fresh x hin)) rfl rfl
        · exact ⟨Function.update_self _ _ _, Function.update_self _ _ _⟩
        · have htrack : OnTrack s := by rw [OnTrack, hphase]; exact ⟨timeoutTime, hthread⟩
          refine ⟨fun hgood => ⟨⟨hgood.1, htrack⟩, trivial⟩, fun hgood => ⟨hgood.1.1, ?_⟩⟩
          exact ⟨Function.update_self _ _ _, Function.update_self _ _ _⟩
    · exact absurd hstep (by simp)
  | exchange now =>
    simp only [step] at hstep
    split at hstep
    · next serviceName c hphase =>
      rw [Live, hphase] at hlive
      rw [Option.ite_none_right_eq_some] at hstep
      exact Option.some.inj hstep.2 ▸ exchange_spec h hphase hlive
    · exact absurd hstep (by simp)
  | release now =>
    simp only [step] at hstep
    split at hstep
    · next c hphase =>
      rw [hphase] at hp
      obtain ⟨hthread, hheld, hspent⟩ := hp
      obtain ⟨pool, hpool, rfl⟩ := Option.map_eq_some_iff.mp hstep
      have hkeep := h.pool.step hpool
      simp only [ConnectionPool.step, if_pos hheld] at hpool
      rw [← Option.some.inj hpool] at hkeep ⊢
      have hvalid : s.valid c = true := hspent.2.1
      obtain ⟨hin, hused⟩ := h.pool.held_used c hheld
      have htrack : OnTrack s := by rw [OnTrack, hphase]; trivial
      refine ⟨⟨hkeep, h.listed, ?_, hthread⟩, ?_⟩
      · intro x hx
        simp only [ConnectionPool.HostPool.release, if_pos hin, if_pos hused, hvalid, if_true,
          List.mem_append, List.mem_singleton] at hx
        rcases hx with hx | rfl
        · exact h.idle x hx
        · exact hspent
      · exact ⟨fun hgood => ⟨⟨hgood.1, htrack⟩, trivial⟩, fun hgood => ⟨hgood.1.1, trivial⟩⟩
    · exact absurd hstep (by simp)
  | cleanup now =>
    simp only [step] at hstep
    obtain ⟨pool, hpool, rfl⟩ := Option.map_eq_some_iff.mp hstep
    have hkeep := h.pool.step hpool
    simp only [ConnectionPool.step] at hpool
    rw [← Option.some.inj hpool] at hkeep ⊢
    refine ⟨⟨hkeep, h.listed, fun x hx => h.idle x (cleanup_idle h now x hx), ?_⟩, ?_⟩
    · exact phaseInv_cleanup h now
    · exact ⟨fun hgood => ⟨hgood, trivial⟩, And.left⟩
  | handle data now =>
    simp only [step] at hstep
    rw [Option.ite_none_right_eq_some] at hstep
    obtain ⟨hnow, hstep⟩ := hstep
    rw [← Option.some.inj hstep]
    obtain ⟨hinv, hgood⟩ := registry_spec h (h.listed.handleConnection data hnow)
    exact ⟨hinv, hgood.trans ⟨fun hs => ⟨hs, trivial⟩, And.left⟩⟩
  | checkHeartbeat now =>
    simp only [step] at hstep
    rw [← Option.some.inj hstep]
    obtain ⟨hinv, hgood⟩ := registry_spec h (h.listed.checkHeartbeat now)
    exact ⟨hinv, hgood.trans ⟨fun hs => ⟨hs, trivial⟩, And.left⟩⟩

end Step

/-! ### Whole runs -/

theorem invariant_init (config : ConnectionPool.Config) : Invariant config {} where
  pool := ConnectionPool.invariant_init
  listed := RegistryStateMachine.allServices_empty
  idle _ hc := absurd hc List.not_mem_nil
  phase := rfl

theorem good_init : Good {} := ⟨fun _ hcall => absurd hcall List.not_mem_nil, trivial⟩

theorem step_discoveries {config : ConnectionPool.Config} {s t : State} {a : Action}
    (h : Invariant config s) (hstep : (discoveries config).step s a = some t) :
    Invariant config t ∧ (Good t ↔ Good s ∧ Reconnects config s a) := by
  obtain ⟨hlive, hstep⟩ := System.step_restrict.mp hstep
  exact step_spec h hlive hstep

theorem good_iff_reconnects {config : ConnectionPool.Config} {as : List Action} {t : State}
    (hrun : (discoveries config).exec {} as = some t) :
    Good t ↔ ((discoveries config).restrict (Reconnects config)).exec {} as = some t := by
  refine System.exec_restrict_iff_of_absorbing (I := Invariant config) ?_ ?_ ?_
    (invariant_init config) good_init hrun
  · intro s a t h hstep
    exact (step_discoveries h hstep).1
  · intro s a t h hgood hstep
    rw [(step_discoveries h hstep).2, and_iff_right hgood]
  · intro s a t h hstep hgood
    exact ((step_discoveries h hstep).2.mp hgood).1

/-- **When every call returns the current instances**: in a run in which every call begins
with no idle connection in the pool and room for a new one, and its messages fit in a frame;
and, once no call is in progress, in no other run. -/
theorem discoveries_current_iff (config : ConnectionPool.Config) (as : List Action) (t : State)
    (hrun : (discoveries config).exec {} as = some t) :
    (((discoveries config).restrict (Reconnects config)).exec {} as = some t → AllCurrent t) ∧
      (t.phase = .outside →
        (AllCurrent t ↔
          ((discoveries config).restrict (Reconnects config)).exec {} as = some t)) := by
  have hiff := good_iff_reconnects hrun
  refine ⟨fun hexec => (hiff.mpr hexec).1, ?_⟩
  intro hphase
  rw [← hiff]
  have htrack : OnTrack t := by
    rw [OnTrack, hphase]
    trivial
  exact ⟨fun hall => ⟨hall, htrack⟩, And.left⟩

/-- The run of one call for a service that was registered. -/
def sampleCall : List Action :=
  [.handle (ServiceRegisterRequest.codec.encode ⟨utf8 "s", utf8 "h", 80⟩) 0,
    .call (utf8 "s") 0 0, .connected 0, .exchange 0, .release 0]

theorem discoveries_current_sample :
    ∃ t, (discoveries {}).exec {} sampleCall = some t ∧ AllCurrent t ∧ t.calls.length = 1 := by
  obtain ⟨t, ht, htest⟩ :=
    ((discoveries {}).restrict (Reconnects {})).exists_exec_of_any {} sampleCall
      (fun t => decide (t.calls.length = 1)) (by decide +kernel)
  have hrun := System.exec_restrict ht
  exact ⟨t, hrun, (discoveries_current_iff {} sampleCall t hrun).1 ht, of_decide_eq_true htest⟩

/-- In every run, every call returns the current instances. -/
def KeepsWorking (config : ConnectionPool.Config) : Prop :=
  ∀ (as : List Action) (t : State), (discoveries config).exec {} as = some t → AllCurrent t

/-- The second of two calls gets the connection of the first, and no answer. -/
theorem sampleCalls_notCurrent : ¬ KeepsWorking {} := by
  intro h
  obtain ⟨t, ht, htest⟩ := (discoveries {}).exists_exec_of_any {}
    (sampleCall ++ [.call (utf8 "s") 0 0, .exchange 0])
    (fun t => t.calls.any fun call => call.returned ≠ call.current) (by decide +kernel)
  obtain ⟨call, hcall, hne⟩ := List.any_eq_true.mp htest
  exact of_decide_eq_true hne (h _ t ht call hcall)

end Discovery
