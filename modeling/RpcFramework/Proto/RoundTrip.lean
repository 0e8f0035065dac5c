import RpcFramework.Lib.Schema
import RpcFramework.Proto.DistributedRegistry
import RpcFramework.Proto.RpcMessage

/-!
# Round trips of the messages

For every message type of `rpc_message.proto` and of `distributed_registry.proto`: what is
written can be read back, and what is read, whoever wrote it, could have been written.

## Main definitions

* `Rpc.ClusterNodeInfo`, `Rpc.ClusterStatusResponse` — the answer to a cluster status request.
* `Rpc.MessageType` — the message types, each with its `schema` and its `codec`.

## Main results

* `Rpc.messages_roundTrip` — **all messages round trip.**
-/

open Wire FieldSpec

namespace Rpc

/-! ### Calls -/

theorem RpcRequest.wellFormed_iff (m : RpcRequest) : Typed schema m ∧ Text schema m ↔
    validUtf8 m.serviceName = true ∧ validUtf8 m.methodName = true ∧
      validUtf8 m.requestId = true := by
  simp [Typed, Text, schema, FieldSpec.string, FieldSpec.bytes]

theorem RpcRequest.roundTrips : RoundTrips {} RpcRequest.schema := by
  refine .of_schema (by decide) ?_ wellFormed_iff ⟨rfl, rfl, rfl⟩ ?_
  · intro m _ _
    exact .cons (copies_string fun h => by rw [h]) <|
      .cons (copies_string fun h => by rw [h]) <|
      .cons (copies_bytes fun h => by rw [h]) <|
      .cons (copies_string fun h => by rw [h]) <| .nil _
  · refine List.forall_mem_cons.mpr ⟨?_, List.forall_mem_cons.mpr ⟨?_,
      List.forall_mem_cons.mpr ⟨?_, List.forall_mem_singleton.mpr ?_⟩⟩⟩
    · exact keeps_string fun acc x ⟨_, hmethod, hid⟩ hx => ⟨hx, hmethod, hid⟩
    · exact keeps_string fun acc x ⟨hservice, _, hid⟩ hx => ⟨hservice, hx, hid⟩
    · exact keeps_bytes fun acc x hacc => hacc
    · exact keeps_string fun acc x ⟨hservice, hmethod, _⟩ hx => ⟨hservice, hmethod, hx⟩
theorem RpcResponse.wellFormed_iff (m : RpcResponse) : Typed schema m ∧ Text schema m ↔
    InRange 32 m.errorCode ∧ validUtf8 m.requestId = true ∧ validUtf8 m.errorMsg = true := by
  simp [Typed, Text, schema, FieldSpec.string, FieldSpec.bytes, FieldSpec.int32]

theorem RpcResponse.roundTrips : RoundTrips {} RpcResponse.schema := by
  refine .of_schema (by decide) ?_ wellFormed_iff ⟨by decide, rfl, rfl⟩ ?_
  · intro m htyped _
    have hcode : InRange 32 m.errorCode := htyped _ (List.mem_cons_of_mem _ List.mem_cons_self)
    exact .cons (copies_string fun h => by rw [h]) <|
      .cons (copies_int32 hcode fun h => by rw [h]) <|
      .cons (copies_string fun h => by rw [h]) <|
      .cons (copies_bytes fun h => by rw [h]) <| .nil _
  · refine List.forall_mem_cons.mpr ⟨?_, List.forall_mem_cons.mpr ⟨?_,
      List.forall_mem_cons.mpr ⟨?_, List.forall_mem_singleton.mpr ?_⟩⟩⟩
    · exact keeps_string fun acc x ⟨hcode, _, hmsg⟩ hx => ⟨hcode, hx, hmsg⟩
    · exact keeps_int32 fun acc x ⟨_, hid, hmsg⟩ hx => ⟨hx, hid, hmsg⟩
    · exact keeps_string fun acc x ⟨hcode, hid, _⟩ hx => ⟨hcode, hid, hx⟩
    · exact keeps_bytes fun acc x hacc => hacc

/-! ### The registry -/

theorem ServiceRegisterRequest.wellFormed_iff (m : ServiceRegisterRequest) :
    Typed schema m ∧ Text schema m ↔
      InRange 32 m.port ∧ validUtf8 m.serviceName = true ∧ validUtf8 m.host = true := by
  rw [typed_iff, text_iff]

theorem ServiceRegisterRequest.roundTrips : RoundTrips {} ServiceRegisterRequest.schema := by
  refine .of_schema (by decide) ?_ wellFormed_iff ⟨by decide, rfl, rfl⟩ ?_
  · intro m htyped _
    exact .cons (copies_string fun h => by rw [h]) <|
      .cons (copies_string fun h => by rw [h]) <|
      .cons (copies_int32 (typed_iff.mp htyped) fun h => by rw [h]) <| .nil _
  · refine List.forall_mem_cons.mpr ⟨?_, List.forall_mem_cons.mpr ⟨?_,
      List.forall_mem_singleton.mpr ?_⟩⟩
    · exact keeps_string fun acc x ⟨hport, _, hhost⟩ hx => ⟨hport, hx, hhost⟩
    · exact keeps_string fun acc x ⟨hport, hname, _⟩ hx => ⟨hport, hname, hx⟩
    · exact keeps_int32 fun acc x ⟨_, hname, hhost⟩ hx => ⟨hx, hname, hhost⟩

theorem ServiceRegisterResponse.roundTrips : RoundTrips {} ServiceRegisterResponse.schema := by
  refine .of_schema (P := fun m => validUtf8 m.message = true) (by decide) ?_ ?_ rfl ?_
  · intro m _ _
    exact .cons (copies_bool fun h => by rw [h]) <|
      .cons (copies_string fun h => by rw [h]) <| .nil _
  · intro m
    simp [Typed, Text, schema, FieldSpec.string, FieldSpec.bool]
  · refine List.forall_mem_cons.mpr ⟨?_, List.forall_mem_singleton.mpr ?_⟩
    · exact keeps_bool fun acc b hacc => hacc
    · exact keeps_string fun acc x _ hx => hx

theorem ServiceDiscoveryRequest.roundTrips : RoundTrips {} ServiceDiscoveryRequest.schema := by
  refine .of_schema (P := fun m => validUtf8 m.serviceName = true) (by decide) ?_ ?_ rfl ?_
  · intro m _ _
    exact .cons (copies_string fun h => by rw [h]) <| .nil _
  · intro m
    simp [Typed, Text, schema, FieldSpec.string]
  · exact List.forall_mem_singleton.mpr (keeps_string fun acc x _ hx => hx)

theorem ServiceInfo.wellFormed_iff (m : ServiceInfo) : Typed schema m ∧ Text schema m ↔
    InRange 32 m.port ∧ InRange 64 m.lastHeartbeat ∧ validUtf8 m.host = true := by
  rw [typed_iff, text_iff, and_assoc]

theorem ServiceInfo.roundTrips : RoundTrips {} ServiceInfo.schema := by
  refine .of_schema (by decide) ?_ wellFormed_iff ⟨by decide, by decide, rfl⟩ ?_
  · intro m htyped _
    obtain ⟨hport, hheartbeat⟩ := typed_iff.mp htyped
    exact .cons (copies_string fun h => by rw [h]) <|
      .cons (copies_int32 hport fun h => by rw [h]) <|
      .cons (copies_int64 hheartbeat fun h => by rw [h]) <| .nil _
  · refine List.forall_mem_cons.mpr ⟨?_, List.forall_mem_cons.mpr ⟨?_,
      List.forall_mem_singleton.mpr ?_⟩⟩
    · exact keeps_string fun acc x ⟨hport, hheartbeat, _⟩ hx => ⟨hport, hheartbeat, hx⟩
    · exact keeps_int32 fun acc x ⟨_, hheartbeat, hhost⟩ hx => ⟨hx, hheartbeat, hhost⟩
    · exact keeps_int64 fun acc x ⟨hport, _, hhost⟩ hx => ⟨hport, hx, hhost⟩

/-- Appending one element after the other appends the list. -/
theorem foldl_push {μ ν : Type*} (get : μ → List ν) (set : μ → List ν → μ)
    (hget : ∀ m xs, get (set m xs) = xs) (hset : ∀ m xs ys, set (set m xs) ys = set m ys)
    (hself : ∀ m, set m (get m) = m) (xs : List ν) (acc : μ) :
    xs.foldl (fun m x => set m (get m ++ [x])) acc = set acc (get acc ++ xs) := by
  induction xs generalizing acc with
  | nil => rw [List.foldl_nil, List.append_nil, hself]
  | cons x xs ih => rw [List.foldl_cons, ih, hget, hset, List.append_assoc, List.singleton_append]

theorem ServiceDiscoveryResponse.roundTrips : RoundTrips {} ServiceDiscoveryResponse.schema := by
  refine .of_schema
    (P := fun m => ∀ x ∈ m.services, Typed ServiceInfo.schema x ∧ Text ServiceInfo.schema x)
    (by decide) ?_ ?_ (fun x hx => absurd hx List.not_mem_nil) ?_
  · intro m htyped hlen
    have hinfos : ∀ x ∈ m.services, Typed ServiceInfo.schema x := htyped _ List.mem_cons_self
    have hshort : ∀ x ∈ m.services, (ServiceInfo.codec.encode x).length ≤ maxLength :=
      fun x hx => (length_encode_le_of_mem List.mem_cons_self hx).trans hlen
    have hpush := foldl_push ServiceDiscoveryResponse.services
      (fun m xs => { m with services := xs }) (fun _ _ => rfl) (fun _ _ _ => rfl)
      (fun _ => rfl) m.services {}
    exact .cons (copies_repeated
      (fun x hx htext => ServiceInfo.roundTrips.decode_encode x (hinfos x hx) htext (hshort x hx))
      (fun x hx htext =>
        ServiceInfo.roundTrips.decode_encode_none x (hinfos x hx) htext (hshort x hx))
      hpush) (.nil _)
  · intro m
    simp [Typed, Text, schema, FieldSpec.repeated, forall_and]
  · refine List.forall_mem_singleton.mpr (keeps_repeated ServiceInfo.roundTrips.of_decode ?_)
    intro acc x hacc hx y hy
    rcases List.mem_append.mp hy with hold | hnew
    · exact hacc y hold
    · exact List.mem_singleton.mp hnew ▸ hx

theorem HeartbeatRequest.wellFormed_iff (m : HeartbeatRequest) : Typed schema m ∧ Text schema m ↔
    InRange 32 m.port ∧ validUtf8 m.serviceName = true ∧ validUtf8 m.host = true := by
  simp [Typed, Text, schema, FieldSpec.string, FieldSpec.int32]

theorem HeartbeatRequest.roundTrips : RoundTrips {} HeartbeatRequest.schema := by
  refine .of_schema (by decide) ?_ wellFormed_iff ⟨by decide, rfl, rfl⟩ ?_
  · intro m htyped _
    exact .cons (copies_string fun h => by rw [h]) <|
      .cons (copies_string fun h => by rw [h]) <|
      .cons (copies_int32 (typed_iff.mp htyped) fun h => by rw [h]) <| .nil _
  · refine List.forall_mem_cons.mpr ⟨?_, List.forall_mem_cons.mpr ⟨?_,
      List.forall_mem_singleton.mpr ?_⟩⟩
    · exact keeps_string fun acc x ⟨hport, _, hhost⟩ hx => ⟨hport, hx, hhost⟩
    · exact keeps_string fun acc x ⟨hport, hname, _⟩ hx => ⟨hport, hname, hx⟩
    · exact keeps_int32 fun acc x ⟨_, hname, hhost⟩ hx => ⟨hx, hname, hhost⟩

theorem HeartbeatResponse.roundTrips : RoundTrips {} HeartbeatResponse.schema := by
  refine .of_schema (P := fun m => validUtf8 m.message = true) (by decide) ?_ ?_ rfl ?_
  · intro m _ _
    exact .cons (copies_bool fun h => by rw [h]) <|
      .cons (copies_string fun h => by rw [h]) <| .nil _
  · intro m
    simp [Typed, Text, schema, FieldSpec.string, FieldSpec.bool]
  · refine List.forall_mem_cons.mpr ⟨?_, List.forall_mem_singleton.mpr ?_⟩
    · exact keeps_bool fun acc b hacc => hacc
    · exact keeps_string fun acc x _ hx => hx

/-! ### The Raft port and the log -/

theorem LogEntry.wellFormed_iff (m : LogEntry) : Typed schema m ∧ Text schema m ↔
    InRange 64 m.term ∧ InRange 64 m.index ∧ validUtf8 m.operation = true := by
  simp [Typed, Text, schema, FieldSpec.string, FieldSpec.bytes, FieldSpec.int64, and_assoc]

theorem LogEntry.roundTrips : RoundTrips {} LogEntry.schema := by
  refine .of_schema (by decide) ?_ wellFormed_iff ⟨by decide, by decide, rfl⟩ ?_
  · intro m htyped _
    obtain ⟨hterm, hindex⟩ := typed_iff.mp htyped
    exact .cons (copies_int64 hterm fun h => by rw [h]) <|
      .cons (copies_int64 hindex fun h => by rw [h]) <|
      .cons (copies_string fun h => by rw [h]) <|
      .cons (copies_bytes fun h => by rw [h]) <| .nil _
  · refine List.forall_mem_cons.mpr ⟨?_, List.forall_mem_cons.mpr ⟨?_,
      List.forall_mem_cons.mpr ⟨?_, List.forall_mem_singleton.mpr ?_⟩⟩⟩
    · exact keeps_int64 fun acc x ⟨_, hindex, hoperation⟩ hx => ⟨hx, hindex, hoperation⟩
    · exact keeps_int64 fun acc x ⟨hterm, _, hoperation⟩ hx => ⟨hterm, hx, hoperation⟩
    · exact keeps_string fun acc x ⟨hterm, hindex, _⟩ hx => ⟨hterm, hindex, hx⟩
    · exact keeps_bytes fun acc x hacc => hacc

theorem RequestVoteRequest.wellFormed_iff (m : RequestVoteRequest) :
    Typed schema m ∧ Text schema m ↔
      (InRange 64 m.term ∧ InRange 64 m.lastLogIndex ∧ InRange 64 m.lastLogTerm) ∧
        validUtf8 m.candidateId = true := by
  rw [typed_iff, text_iff]

theorem RequestVoteRequest.roundTrips : RoundTrips {} RequestVoteRequest.schema := by
  refine .of_schema (by decide) ?_ wellFormed_iff ⟨by decide, rfl⟩ ?_
  · intro m htyped _
    obtain ⟨hterm, hindex, hlast⟩ := typed_iff.mp htyped
    exact .cons (copies_int64 hterm fun h => by rw [h]) <|
      .cons (copies_string fun h => by rw [h]) <|
      .cons (copies_int64 hindex fun h => by rw [h]) <|
      .cons (copies_int64 hlast fun h => by rw [h]) <| .nil _
  · refine List.forall_mem_cons.mpr ⟨?_, List.forall_mem_cons.mpr ⟨?_,
      List.forall_mem_cons.mpr ⟨?_, List.forall_mem_singleton.mpr ?_⟩⟩⟩
    · exact keeps_int64 fun acc x ⟨⟨_, hindex, hlast⟩, hid⟩ hx => ⟨⟨hx, hindex, hlast⟩, hid⟩
    · exact keeps_string fun acc x ⟨hints, _⟩ hx => ⟨hints, hx⟩
    · exact keeps_int64 fun acc x ⟨⟨hterm, _, hlast⟩, hid⟩ hx => ⟨⟨hterm, hx, hlast⟩, hid⟩
    · exact keeps_int64 fun acc x ⟨⟨hterm, hindex, _⟩, hid⟩ hx => ⟨⟨hterm, hindex, hx⟩, hid⟩

theorem RequestVoteResponse.roundTrips : RoundTrips {} RequestVoteResponse.schema := by
  refine .of_schema (P := fun m => InRange 64 m.term) (by decide) ?_ ?_ (by decide) ?_
  · intro m htyped _
    exact .cons (copies_int64 (typed_iff.mp htyped) fun h => by rw [h]) <|
      .cons (copies_bool fun h => by rw [h]) <| .nil _
  · intro m
    simp [Typed, Text, schema, FieldSpec.int64, FieldSpec.bool]
  · refine List.forall_mem_cons.mpr ⟨?_, List.forall_mem_singleton.mpr ?_⟩
    · exact keeps_int64 fun acc x _ hx => hx
    · exact keeps_bool fun acc b hacc => hacc

/-- The values of an append request are of their types, its own text and that of its entries is
UTF-8. -/
structure AppendEntriesRequest.WellFormed (m : AppendEntriesRequest) : Prop where
  term : InRange 64 m.term
  leaderId : validUtf8 m.leaderId = true
  prevLogIndex : InRange 64 m.prevLogIndex
  prevLogTerm : InRange 64 m.prevLogTerm
  entries : ∀ e ∈ m.entries, Typed LogEntry.schema e ∧ Text LogEntry.schema e
  leaderCommit : InRange 64 m.leaderCommit

theorem AppendEntriesRequest.wellFormed_iff (m : AppendEntriesRequest) :
    Typed schema m ∧ Text schema m ↔ m.WellFormed := by
  have htext : Text schema m ↔ validUtf8 m.leaderId = true ∧
      ∀ e ∈ m.entries, Text LogEntry.schema e := by
    simp [Text, schema, FieldSpec.string, FieldSpec.int64, FieldSpec.repeated]
  rw [typed_iff, htext]
  constructor
  · rintro ⟨⟨hterm, hindex, hlast, hentries, hcommit⟩, hid, hall⟩
    exact ⟨hterm, hid, hindex, hlast, fun e he => ⟨hentries e he, hall e he⟩, hcommit⟩
  · intro h
    exact ⟨⟨h.term, h.prevLogIndex, h.prevLogTerm, fun e he => (h.entries e he).1,
      h.leaderCommit⟩, h.leaderId, fun e he => (h.entries e he).2⟩

theorem AppendEntriesRequest.roundTrips : RoundTrips {} AppendEntriesRequest.schema := by
  refine .of_schema (by decide) ?_ wellFormed_iff
    ⟨by decide, rfl, by decide, by decide, fun e he => absurd he List.not_mem_nil, by decide⟩ ?_
  · intro m htyped hlen
    obtain ⟨hterm, hindex, hlast, hentries, hcommit⟩ := typed_iff.mp htyped
    have hshort : ∀ e ∈ m.entries, (LogEntry.codec.encode e).length ≤ maxLength :=
      fun e he => (length_encode_le_of_mem (List.mem_cons_of_mem _ (List.mem_cons_of_mem _
        (List.mem_cons_of_mem _ (List.mem_cons_of_mem _ List.mem_cons_self)))) he).trans hlen
    have hpush := foldl_push AppendEntriesRequest.entries (fun m xs => { m with entries := xs })
      (fun _ _ => rfl) (fun _ _ _ => rfl) (fun _ => rfl) m.entries
    exact .cons (copies_int64 hterm fun h => by rw [h]) <|
      .cons (copies_string fun h => by rw [h]) <|
      .cons (copies_int64 hindex fun h => by rw [h]) <|
      .cons (copies_int64 hlast fun h => by rw [h]) <|
      .cons (copies_repeated
        (fun e he htext => LogEntry.roundTrips.decode_encode e (hentries e he) htext (hshort e he))
        (fun e he htext =>
          LogEntry.roundTrips.decode_encode_none e (hentries e he) htext (hshort e he))
        (hpush _)) <|
      .cons (copies_int64 hcommit fun h => by rw [h]) <| .nil _
  · refine List.forall_mem_cons.mpr ⟨?_, List.forall_mem_cons.mpr ⟨?_,
      List.forall_mem_cons.mpr ⟨?_, List.forall_mem_cons.mpr ⟨?_,
      List.forall_mem_cons.mpr ⟨?_, List.forall_mem_singleton.mpr ?_⟩⟩⟩⟩⟩
    · exact keeps_int64 fun acc x hacc hx => { hacc with term := hx }
    · exact keeps_string fun acc x hacc hx => { hacc with leaderId := hx }
    · exact keeps_int64 fun acc x hacc hx => { hacc with prevLogIndex := hx }
    · exact keeps_int64 fun acc x hacc hx => { hacc with prevLogTerm := hx }
    · refine keeps_repeated LogEntry.roundTrips.of_decode ?_
      intro acc x hacc hx
      refine { hacc with entries := ?_ }
      intro e he
      rcases List.mem_append.mp he with hold | hnew
      · exact hacc.entries e hold
      · exact List.mem_singleton.mp hnew ▸ hx
    · exact keeps_int64 fun acc x hacc hx => { hacc with leaderCommit := hx }

theorem AppendEntriesResponse.wellFormed_iff (m : AppendEntriesResponse) :
    Typed schema m ∧ Text schema m ↔ InRange 64 m.term ∧ InRange 64 m.matchIndex := by
  simp [Typed, Text, schema, FieldSpec.int64, FieldSpec.bool]

theorem AppendEntriesResponse.roundTrips : RoundTrips {} AppendEntriesResponse.schema := by
  refine .of_schema (by decide) ?_ wellFormed_iff ⟨by decide, by decide⟩ ?_
  · intro m htyped _
    obtain ⟨hterm, hindex⟩ := typed_iff.mp htyped
    exact .cons (copies_int64 hterm fun h => by rw [h]) <|
      .cons (copies_bool fun h => by rw [h]) <|
      .cons (copies_int64 hindex fun h => by rw [h]) <| .nil _
  · refine List.forall_mem_cons.mpr ⟨?_, List.forall_mem_cons.mpr ⟨?_,
      List.forall_mem_singleton.mpr ?_⟩⟩
    · exact keeps_int64 fun acc x ⟨_, hindex⟩ hx => ⟨hx, hindex⟩
    · exact keeps_bool fun acc b hacc => hacc
    · exact keeps_int64 fun acc x ⟨hterm, _⟩ hx => ⟨hterm, hx⟩

/-- The values of an operation are of their types, and its text is UTF-8. -/
structure ServiceOperation.WellFormed (m : ServiceOperation) : Prop where
  operationType : validUtf8 m.operationType = true
  serviceName : validUtf8 m.serviceName = true
  host : validUtf8 m.host = true
  port : InRange 32 m.port
  timestamp : InRange 64 m.timestamp

theorem ServiceOperation.wellFormed_iff (m : ServiceOperation) :
    Typed schema m ∧ Text schema m ↔ m.WellFormed := by
  rw [typed_iff, text_iff]
  constructor
  · rintro ⟨⟨hport, htime⟩, htype, hname, hhost⟩
    exact ⟨htype, hname, hhost, hport, htime⟩
  · intro h
    exact ⟨⟨h.port, h.timestamp⟩, h.operationType, h.serviceName, h.host⟩

theorem ServiceOperation.roundTrips : RoundTrips {} ServiceOperation.schema := by
  refine .of_schema (by decide) ?_ wellFormed_iff ⟨rfl, rfl, rfl, by decide, by decide⟩ ?_
  · intro m htyped _
    obtain ⟨hport, htime⟩ := typed_iff.mp htyped
    exact .cons (copies_string fun h => by rw [h]) <|
      .cons (copies_string fun h => by rw [h]) <|
      .cons (copies_string fun h => by rw [h]) <|
      .cons (copies_int32 hport fun h => by rw [h]) <|
      .cons (copies_int64 htime fun h => by rw [h]) <| .nil _
  · refine List.forall_mem_cons.mpr ⟨?_, List.forall_mem_cons.mpr ⟨?_,
      List.forall_mem_cons.mpr ⟨?_, List.forall_mem_cons.mpr ⟨?_,
      List.forall_mem_singleton.mpr ?_⟩⟩⟩⟩
    · exact keeps_string fun acc x hacc hx => { hacc with operationType := hx }
    · exact keeps_string fun acc x hacc hx => { hacc with serviceName := hx }
    · exact keeps_string fun acc x hacc hx => { hacc with host := hx }
    · exact keeps_int32 fun acc x hacc hx => { hacc with port := hx }
    · exact keeps_int64 fun acc x hacc hx => { hacc with timestamp := hx }

/-! ### The state of the cluster -/

structure ClusterNodeInfo where
  nodeId : Bytes := []
  host : Bytes := []
  port : ℤ := 0
  role : Bytes := []
  term : ℤ := 0
  deriving DecidableEq, Repr

def ClusterNodeInfo.schema : List (FieldSpec ClusterNodeInfo) :=
  [ .string 1 ClusterNodeInfo.nodeId fun m x => { m with nodeId := x },
    .string 2 ClusterNodeInfo.host fun m x => { m with host := x },
    .int32 3 ClusterNodeInfo.port fun m x => { m with port := x },
    .string 4 ClusterNodeInfo.role fun m x => { m with role := x },
    .int64 5 ClusterNodeInfo.term fun m x => { m with term := x } ]

def ClusterNodeInfo.codec : Codec ClusterNodeInfo := .ofSchema {} ClusterNodeInfo.schema

structure ClusterStatusResponse where
  nodes : List ClusterNodeInfo := []
  leaderId : Bytes := []
  deriving DecidableEq, Repr

def ClusterStatusResponse.schema : List (FieldSpec ClusterStatusResponse) :=
  [ .repeated 1 ClusterNodeInfo.schema ClusterNodeInfo.codec ClusterStatusResponse.nodes
      fun m x => { m with nodes := m.nodes ++ [x] },
    .string 2 ClusterStatusResponse.leaderId fun m x => { m with leaderId := x } ]

def ClusterStatusResponse.codec : Codec ClusterStatusResponse :=
  .ofSchema {} ClusterStatusResponse.schema

/-- The values of a node's description are of their types, and its text is UTF-8. -/
structure ClusterNodeInfo.WellFormed (m : ClusterNodeInfo) : Prop where
  nodeId : validUtf8 m.nodeId = true
  host : validUtf8 m.host = true
  port : InRange 32 m.port
  role : validUtf8 m.role = true
  term : InRange 64 m.term

theorem ClusterNodeInfo.wellFormed_iff (m : ClusterNodeInfo) :
    Typed schema m ∧ Text schema m ↔ m.WellFormed := by
  have htyped : Typed schema m ↔ InRange 32 m.port ∧ InRange 64 m.term := by
    simp [Typed, schema, FieldSpec.string, FieldSpec.int32, FieldSpec.int64]
  have htext : Text schema m ↔ validUtf8 m.nodeId = true ∧ validUtf8 m.host = true ∧
      validUtf8 m.role = true := by
    simp [Text, schema, FieldSpec.string, FieldSpec.int32, FieldSpec.int64]
  rw [htyped, htext]
  constructor
  · rintro ⟨⟨hport, hterm⟩, hid, hhost, hrole⟩
    exact ⟨hid, hhost, hport, hrole, hterm⟩
  · intro h
    exact ⟨⟨h.port, h.term⟩, h.nodeId, h.host, h.role⟩

theorem ClusterNodeInfo.roundTrips : RoundTrips {} ClusterNodeInfo.schema := by
  refine .of_schema (by decide) ?_ wellFormed_iff ⟨rfl, rfl, by decide, rfl, by decide⟩ ?_
  · intro m htyped _
    have hport : InRange 32 m.port := htyped _ (List.mem_cons_of_mem _ (List.mem_cons_of_mem _
      List.mem_cons_self))
    have hterm : InRange 64 m.term := htyped _ (List.mem_cons_of_mem _ (List.mem_cons_of_mem _
      (List.mem_cons_of_mem _ (List.mem_cons_of_mem _ List.mem_cons_self))))
    exact .cons (copies_string fun h => by rw [h]) <|
      .cons (copies_string fun h => by rw [h]) <|
      .cons (copies_int32 hport fun h => by rw [h]) <|
      .cons (copies_string fun h => by rw [h]) <|
      .cons (copies_int64 hterm fun h => by rw [h]) <| .nil _
  · refine List.forall_mem_cons.mpr ⟨?_, List.forall_mem_cons.mpr ⟨?_,
      List.forall_mem_cons.mpr ⟨?_, List.forall_mem_cons.mpr ⟨?_,
      List.forall_mem_singleton.mpr ?_⟩⟩⟩⟩
    · exact keeps_string fun acc x hacc hx => { hacc with nodeId := hx }
    · exact keeps_string fun acc x hacc hx => { hacc with host := hx }
    · exact keeps_int32 fun acc x hacc hx => { hacc with port := hx }
    · exact keeps_string fun acc x hacc hx => { hacc with role := hx }
    · exact keeps_int64 fun acc x hacc hx => { hacc with term := hx }

theorem ClusterStatusRequest.roundTrips :
    RoundTrips ({} : ClusterStatusRequest) ([] : List (FieldSpec ClusterStatusRequest)) := by
  refine .of_schema (P := fun _ => True) (by decide) (fun m _ _ => .nil _) ?_ trivial ?_
  · exact fun m => iff_of_true ⟨fun s hs => absurd hs List.not_mem_nil,
      fun s hs => absurd hs List.not_mem_nil⟩ trivial
  · exact fun s hs => absurd hs List.not_mem_nil

theorem ClusterStatusResponse.wellFormed_iff (m : ClusterStatusResponse) :
    Typed schema m ∧ Text schema m ↔
      (∀ x ∈ m.nodes, Typed ClusterNodeInfo.schema x ∧ Text ClusterNodeInfo.schema x) ∧
        validUtf8 m.leaderId = true := by
  simp [Typed, Text, schema, FieldSpec.repeated, FieldSpec.string, forall_and, and_assoc]

theorem ClusterStatusResponse.roundTrips : RoundTrips {} ClusterStatusResponse.schema := by
  refine .of_schema (by decide) ?_ wellFormed_iff
    ⟨fun x hx => absurd hx List.not_mem_nil, rfl⟩ ?_
  · intro m htyped hlen
    have hnodes : ∀ x ∈ m.nodes, Typed ClusterNodeInfo.schema x := htyped _ List.mem_cons_self
    have hshort : ∀ x ∈ m.nodes, (ClusterNodeInfo.codec.encode x).length ≤ maxLength :=
      fun x hx => (length_encode_le_of_mem List.mem_cons_self hx).trans hlen
    have hpush := foldl_push ClusterStatusResponse.nodes (fun m xs => { m with nodes := xs })
      (fun _ _ => rfl) (fun _ _ _ => rfl) (fun _ => rfl) m.nodes
    exact .cons (copies_repeated
        (fun x hx htext =>
          ClusterNodeInfo.roundTrips.decode_encode x (hnodes x hx) htext (hshort x hx))
        (fun x hx htext =>
          ClusterNodeInfo.roundTrips.decode_encode_none x (hnodes x hx) htext (hshort x hx))
        (hpush _)) <|
      .cons (copies_string fun h => by rw [h]) <| .nil _
  · refine List.forall_mem_cons.mpr ⟨?_, List.forall_mem_singleton.mpr ?_⟩
    · refine keeps_repeated ClusterNodeInfo.roundTrips.of_decode ?_
      rintro acc x ⟨hacc, hid⟩ hx
      refine ⟨fun y hy => ?_, hid⟩
      rcases List.mem_append.mp hy with hold | hnew
      · exact hacc y hold
      · exact List.mem_singleton.mp hnew ▸ hx
    · exact keeps_string fun acc x ⟨hacc, _⟩ hx => ⟨hacc, hx⟩

/-! ### All of them -/

/-- The message types. -/
inductive MessageType where
  | rpcRequest
  | rpcResponse
  | serviceRegisterRequest
  | serviceRegisterResponse
  | serviceDiscoveryRequest
  | serviceInfo
  | serviceDiscoveryResponse
  | heartbeatRequest
  | heartbeatResponse
  | logEntry
  | requestVoteRequest
  | requestVoteResponse
  | appendEntriesRequest
  | appendEntriesResponse
  | clusterNodeInfo
  | clusterStatusRequest
  | clusterStatusResponse
  | serviceOperation
  deriving DecidableEq, Repr

namespace MessageType

/-- The messages of a type. -/
abbrev Message : MessageType → Type
  | rpcRequest => RpcRequest
  | rpcResponse => RpcResponse
  | serviceRegisterRequest => ServiceRegisterRequest
  | serviceRegisterResponse => ServiceRegisterResponse
  | serviceDiscoveryRequest => ServiceDiscoveryRequest
  | serviceInfo => ServiceInfo
  | serviceDiscoveryResponse => ServiceDiscoveryResponse
  | heartbeatRequest => HeartbeatRequest
  | heartbeatResponse => HeartbeatResponse
  | logEntry => LogEntry
  | requestVoteRequest => RequestVoteRequest
  | requestVoteResponse => RequestVoteResponse
  | appendEntriesRequest => AppendEntriesRequest
  | appendEntriesResponse => AppendEntriesResponse
  | clusterNodeInfo => ClusterNodeInfo
  | clusterStatusRequest => ClusterStatusRequest
  | clusterStatusResponse => ClusterStatusResponse
  | serviceOperation => ServiceOperation

/-- Its fields. -/
def schema : (type : MessageType) → List (FieldSpec type.Message)
  | rpcRequest => RpcRequest.schema
  | rpcResponse => RpcResponse.schema
  | serviceRegisterRequest => ServiceRegisterRequest.schema
  | serviceRegisterResponse => ServiceRegisterResponse.schema
  | serviceDiscoveryRequest => ServiceDiscoveryRequest.schema
  | serviceInfo => ServiceInfo.schema
  | serviceDiscoveryResponse => ServiceDiscoveryResponse.schema
  | heartbeatRequest => HeartbeatRequest.schema
  | heartbeatResponse => HeartbeatResponse.schema
  | logEntry => LogEntry.schema
  | requestVoteRequest => RequestVoteRequest.schema
  | requestVoteResponse => RequestVoteResponse.schema
  | appendEntriesRequest => AppendEntriesRequest.schema
  | appendEntriesResponse => AppendEntriesResponse.schema
  | clusterNodeInfo => ClusterNodeInfo.schema
  | clusterStatusRequest => []
  | clusterStatusResponse => ClusterStatusResponse.schema
  | serviceOperation => ServiceOperation.schema

/-- How it is written and read. -/
def codec : (type : MessageType) → Codec type.Message
  | rpcRequest => RpcRequest.codec
  | rpcResponse => RpcResponse.codec
  | serviceRegisterRequest => ServiceRegisterRequest.codec
  | serviceRegisterResponse => ServiceRegisterResponse.codec
  | serviceDiscoveryRequest => ServiceDiscoveryRequest.codec
  | serviceInfo => ServiceInfo.codec
  | serviceDiscoveryResponse => ServiceDiscoveryResponse.codec
  | heartbeatRequest => HeartbeatRequest.codec
  | heartbeatResponse => HeartbeatResponse.codec
  | logEntry => LogEntry.codec
  | requestVoteRequest => RequestVoteRequest.codec
  | requestVoteResponse => RequestVoteResponse.codec
  | appendEntriesRequest => AppendEntriesRequest.codec
  | appendEntriesResponse => AppendEntriesResponse.codec
  | clusterNodeInfo => ClusterNodeInfo.codec
  | clusterStatusRequest => ClusterStatusRequest.codec
  | clusterStatusResponse => ClusterStatusResponse.codec
  | serviceOperation => ServiceOperation.codec

theorem roundTrips (type : MessageType) :
    ∃ empty, type.codec = .ofSchema empty type.schema ∧ RoundTrips empty type.schema := by
  cases type with
  | rpcRequest => exact ⟨{}, rfl, RpcRequest.roundTrips⟩
  | rpcResponse => exact ⟨{}, rfl, RpcResponse.roundTrips⟩
  | serviceRegisterRequest => exact ⟨{}, rfl, ServiceRegisterRequest.roundTrips⟩
  | serviceRegisterResponse => exact ⟨{}, rfl, ServiceRegisterResponse.roundTrips⟩
  | serviceDiscoveryRequest => exact ⟨{}, rfl, ServiceDiscoveryRequest.roundTrips⟩
  | serviceInfo => exact ⟨{}, rfl, ServiceInfo.roundTrips⟩
  | serviceDiscoveryResponse => exact ⟨{}, rfl, ServiceDiscoveryResponse.roundTrips⟩
  | heartbeatRequest => exact ⟨{}, rfl, HeartbeatRequest.roundTrips⟩
  | heartbeatResponse => exact ⟨{}, rfl, HeartbeatResponse.roundTrips⟩
  | logEntry => exact ⟨{}, rfl, LogEntry.roundTrips⟩
  | requestVoteRequest => exact ⟨{}, rfl, RequestVoteRequest.roundTrips⟩
  | requestVoteResponse => exact ⟨{}, rfl, RequestVoteResponse.roundTrips⟩
  | appendEntriesRequest => exact ⟨{}, rfl, AppendEntriesRequest.roundTrips⟩
  | appendEntriesResponse => exact ⟨{}, rfl, AppendEntriesResponse.roundTrips⟩
  | clusterNodeInfo => exact ⟨{}, rfl, ClusterNodeInfo.roundTrips⟩
  | clusterStatusRequest => exact ⟨{}, rfl, ClusterStatusRequest.roundTrips⟩
  | clusterStatusResponse => exact ⟨{}, rfl, ClusterStatusResponse.roundTrips⟩
  | serviceOperation => exact ⟨{}, rfl, ServiceOperation.roundTrips⟩

end MessageType

/-- **All messages round trip.**  What is written of a message that fits is read back just if
its text is UTF-8, and different ones are different bytes.  Whatever bytes are read, the values
are of their types, the text is UTF-8, and written anew the message is read again. -/
theorem messages_roundTrip (type : MessageType) : ∀ m : type.Message,
    ((type.codec.encode m).length ≤ maxLength → Typed type.schema m →
      (type.codec.decode (type.codec.encode m) = some m ↔ Text type.schema m) ∧
        (Text type.schema m → ∀ m', Typed type.schema m' → Text type.schema m' →
          type.codec.encode m = type.codec.encode m' → m = m')) ∧
      ∀ bs, type.codec.decode bs = some m → (Typed type.schema m ∧ Text type.schema m) ∧
        ((type.codec.encode m).length ≤ maxLength →
          type.codec.decode (type.codec.encode m) = some m) := by
  intro m
  obtain ⟨empty, hcodec, h⟩ := type.roundTrips
  rw [hcodec]
  refine ⟨fun hlen htyped => ⟨⟨fun hread => ?_, fun htext => ?_⟩, fun htext m' htyped' htext' heq =>
    ?_⟩, fun bs hread => ⟨h.of_decode bs m hread, h.decode_again hread⟩⟩
  · by_contra htext
    rw [h.decode_encode_none m htyped htext hlen] at hread
    cases hread
  · exact h.decode_encode m htyped htext hlen
  · exact h.encode_injective ⟨htyped, htext⟩ ⟨htyped', htext'⟩ hlen heq

/-- A leader without a name, and one whose name is not UTF-8. -/
theorem messages_roundTrip_sample :
    AppendEntriesRequest.codec.decode (AppendEntriesRequest.codec.encode { term := 3 }) =
        some { term := 3 } ∧
      AppendEntriesRequest.codec.decode (AppendEntriesRequest.codec.encode
        { term := 3, leaderId := [0xFF] }) ≠ some { term := 3, leaderId := [0xFF] } := by
  have htyped : Typed AppendEntriesRequest.schema { term := 3 } := by decide
  have htyped' : Typed AppendEntriesRequest.schema { term := 3, leaderId := [0xFF] } := by decide
  have htext : Text AppendEntriesRequest.schema { term := 3 } :=
    ((AppendEntriesRequest.wellFormed_iff _).mpr ⟨by decide, rfl, by decide, by decide,
      fun e he => absurd he List.not_mem_nil, by decide⟩).2
  refine ⟨((messages_roundTrip .appendEntriesRequest _).1 (by decide) htyped).1.mpr htext, ?_⟩
  intro h
  have hutf8 : validUtf8 [0xFF] = true :=
    ((messages_roundTrip .appendEntriesRequest _).1 (by decide) htyped').1.mp h _
      (List.mem_cons_of_mem _ List.mem_cons_self)
  exact absurd hutf8 (by decide)

end Rpc
