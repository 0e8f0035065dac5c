import RpcFramework.Common.Network
import RpcFramework.Raft.Node

/-!
# The Raft port

Nothing in a request says of which type it is, so a node tries to read what it
receives as a vote request and, where that fails, as an append request.  Both
schemas begin with an integer, a string and two integers, and a vote request has
nothing behind them: whatever reads as an append request reads as a vote request
first.

## Main definitions

* `RaftNode.dispatch` — the handler a received byte string is given to.
* `RaftNode.handleConnection` — one connection of the Raft port.
* `RaftMessage.ReachesItsHandler` — a peer's request is given to the handler of
  its type, and unchanged.

## Main results

* `RaftMessage.reachesItsHandler_iff` — the requests for which that is so: the
  vote requests that pass a frame and name their candidate in UTF-8.
* `RaftNode.dispatch_appendEntries` — an append request that passes a frame runs the
  vote handler.
-/

open Rpc Wire

/-- A handler of the Raft port together with the request it is run on. -/
inductive RaftCall where
  | requestVote (request : RequestVoteRequest)
  | appendEntries (request : AppendEntriesRequest)
  deriving DecidableEq, Repr

namespace RaftNode

/-- The parsers `handleConnection` tries, in its order. -/
def dispatch (data : Bytes) : Option RaftCall :=
  if data = [] then none
  else
    match Serializer.deserialize RequestVoteRequest.codec data with
    | some request => some (.requestVote request)
    | none => (Serializer.deserialize AppendEntriesRequest.codec data).map .appendEntries

/-- Run a handler, and serialize what it answers. -/
def serve (n : RaftNode) : RaftCall → Option (RaftNode × Bytes)
  | .requestVote request =>
      let (n', response) := n.handleRequestVote request
      some (n', Serializer.serialize RequestVoteResponse.codec response)
  | .appendEntries request =>
      (n.handleAppendEntries request).map fun (n', response) =>
        (n', Serializer.serialize AppendEntriesResponse.codec response)

/-- `handleConnection`: one request read, one handler run, one response written. -/
def handleConnection (n : RaftNode) (conn : TcpConnection) : Option (RaftNode × TcpConnection) :=
  match dispatch conn.receive with
  | none => some (n, conn.afterReceive)
  | some call =>
      (n.serve call).map fun (n', response) => (n', (conn.afterReceive.send response).2)

end RaftNode

/-- A request of a peer. -/
abbrev RaftMessage := RaftCall

namespace RaftMessage

/-- The bytes a peer sends for a request. -/
def serialize : RaftMessage → Bytes
  | .requestVote request => Serializer.serialize RequestVoteRequest.codec request
  | .appendEntries request => Serializer.serialize AppendEntriesRequest.codec request

/-- The integers of the request are `int64` values. -/
def Typed : RaftMessage → Prop
  | .requestVote request => Wire.Typed RequestVoteRequest.schema request
  | .appendEntries request => Wire.Typed AppendEntriesRequest.schema request

/-- What the node reads from a connection on which a peer has just sent the request. -/
def received (m : RaftMessage) : Bytes := TcpConnection.transmit m.serialize

/-- The request runs the handler of its type on itself, and no other. -/
def ReachesItsHandler (m : RaftMessage) : Prop := RaftNode.dispatch m.received = some m

end RaftMessage

namespace RaftNode

theorem dispatch_received_vote (v : RequestVoteRequest) :
    dispatch (RaftMessage.received (.requestVote v)) =
      if TcpConnection.Passes (RequestVoteRequest.codec.encode v) then
        dispatch (RequestVoteRequest.codec.encode v)
      else none := by
  rw [RaftMessage.received, RaftMessage.serialize, Serializer.transmit_serialize]
  split <;> rfl

theorem dispatch_received_append (a : AppendEntriesRequest) :
    dispatch (RaftMessage.received (.appendEntries a)) =
      if TcpConnection.Passes (AppendEntriesRequest.codec.encode a) then
        dispatch (AppendEntriesRequest.codec.encode a)
      else none := by
  rw [RaftMessage.received, RaftMessage.serialize, Serializer.transmit_serialize]
  split <;> rfl

/-- The vote request's bytes, where its text is UTF-8, run the vote handler on it. -/
theorem dispatch_requestVote {v : RequestVoteRequest}
    (htyped : Typed RequestVoteRequest.schema v) (htext : validUtf8 v.candidateId = true)
    (hpass : TcpConnection.Passes (RequestVoteRequest.codec.encode v)) :
    dispatch (RequestVoteRequest.codec.encode v) = some (.requestVote v) := by
  have hread := RequestVoteRequest.decode_encode htyped (RequestVoteRequest.text_iff.mpr htext)
    (Serializer.le_maxLength_of_passes hpass)
  simp only [dispatch, if_neg hpass.1, Serializer.deserialize, hread]

/-- **An append request runs the vote handler**, on its own leading fields. -/
theorem dispatch_appendEntries {a : AppendEntriesRequest}
    (htyped : Typed AppendEntriesRequest.schema a) (htext : validUtf8 a.leaderId = true)
    (hpass : TcpConnection.Passes (AppendEntriesRequest.codec.encode a)) :
    dispatch (AppendEntriesRequest.codec.encode a) = some (.requestVote a.asRequestVote) := by
  have hread := RequestVoteRequest.decode_appendEntries htyped htext
    (Serializer.le_maxLength_of_passes hpass)
  simp only [dispatch, if_neg hpass.1, Serializer.deserialize, hread]

/-- The append handler runs on no append request at all. -/
theorem dispatch_ne_appendEntries {a : AppendEntriesRequest}
    (htyped : Typed AppendEntriesRequest.schema a) :
    dispatch (RaftMessage.received (.appendEntries a)) ≠ some (.appendEntries a) := by
  rw [dispatch_received_append]
  split
  · next hpass =>
    by_cases htext : validUtf8 a.leaderId = true
    · -- the vote parser takes it
      rw [dispatch_appendEntries htyped htext hpass]
      simp
    · -- both parsers reject the leader's name
      have hlen := Serializer.le_maxLength_of_passes hpass
      simp only [dispatch, if_neg hpass.1, Serializer.deserialize,
        RequestVoteRequest.decode_appendEntries_none htext hlen,
        AppendEntriesRequest.decode_encode_none htext hlen]
      simp
  · simp

/-- A vote request whose candidate is not UTF-8 does not run the vote handler. -/
theorem dispatch_requestVote_none {v : RequestVoteRequest}
    (htext : ¬ validUtf8 v.candidateId = true)
    (hpass : TcpConnection.Passes (RequestVoteRequest.codec.encode v)) :
    dispatch (RequestVoteRequest.codec.encode v) ≠ some (.requestVote v) := by
  have hread := RequestVoteRequest.decode_encode_none (mt RequestVoteRequest.text_iff.mp htext)
    (Serializer.le_maxLength_of_passes hpass)
  simp only [dispatch, if_neg hpass.1, Serializer.deserialize, hread]
  cases AppendEntriesRequest.codec.decode (RequestVoteRequest.codec.encode v) <;> simp

end RaftNode

/-! ### Which requests reach their handler -/

/-- **The requests that reach their handler**: the vote requests whose bytes pass a
frame, being neither empty nor above the limit, and whose candidate is UTF-8. -/
theorem RaftMessage.reachesItsHandler_iff (m : RaftMessage) (htyped : m.Typed) :
    m.ReachesItsHandler ↔
      ∃ v, m = .requestVote v ∧ TcpConnection.Passes (RequestVoteRequest.codec.encode v) ∧
        validUtf8 v.candidateId = true := by
  cases m with
  | requestVote v =>
    simp only [ReachesItsHandler, RaftNode.dispatch_received_vote, RaftCall.requestVote.injEq,
      exists_eq_left']
    constructor
    · intro h
      split at h
      · next hpass =>
        refine ⟨hpass, ?_⟩
        by_contra htext
        exact RaftNode.dispatch_requestVote_none htext hpass h
      · simp at h
    · rintro ⟨hpass, htext⟩
      rw [if_pos hpass]
      exact RaftNode.dispatch_requestVote htyped htext hpass
  | appendEntries a =>
    constructor
    · intro h
      exact absurd h (RaftNode.dispatch_ne_appendEntries htyped)
    · rintro ⟨v, hv, -⟩
      simp at hv

/-- A vote request of node `A` in term 1, whose log is empty. -/
def RaftMessage.firstVote : RequestVoteRequest where
  term := 1
  candidateId := utf8 "A"

theorem RaftMessage.reachesItsHandler_firstVote :
    RaftMessage.ReachesItsHandler (.requestVote RaftMessage.firstVote) :=
  (RaftMessage.reachesItsHandler_iff (.requestVote RaftMessage.firstVote)
    (RequestVoteRequest.typed_iff.mpr (by decide))).mpr
    ⟨RaftMessage.firstVote, rfl, by decide, by decide⟩

/-- The heartbeat of leader `A` in term 1: its log is empty too. -/
def RaftMessage.firstHeartbeat : AppendEntriesRequest where
  term := 1
  leaderId := utf8 "A"

/-- A heartbeat is given to the vote handler. -/
theorem RaftMessage.firstHeartbeat_misrouted :
    RaftMessage.Typed (.appendEntries RaftMessage.firstHeartbeat) ∧
      RaftNode.dispatch (RaftMessage.received (.appendEntries RaftMessage.firstHeartbeat)) =
        some (.requestVote RaftMessage.firstVote) ∧
      ¬ ∀ m : RaftMessage, m.Typed → m.ReachesItsHandler := by
  have htyped : RaftMessage.Typed (.appendEntries RaftMessage.firstHeartbeat) :=
    AppendEntriesRequest.typed_iff.mpr
      ⟨by decide, by decide, by decide, by simp [firstHeartbeat], by decide⟩
  have hroute : RaftNode.dispatch
      (RaftMessage.received (.appendEntries RaftMessage.firstHeartbeat)) =
        some (.requestVote RaftMessage.firstVote) := by
    rw [RaftNode.dispatch_received_append, if_pos (by decide),
      RaftNode.dispatch_appendEntries htyped (by decide) (by decide)]
    rfl
  refine ⟨htyped, hroute, fun h => ?_⟩
  have hgood := h (.appendEntries RaftMessage.firstHeartbeat) htyped
  rw [RaftMessage.ReachesItsHandler, hroute] at hgood
  simp at hgood
