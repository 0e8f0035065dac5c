import RpcFramework.Lib.Transition
import RpcFramework.Registry.DistributedRegistryServer

/-!
# A cluster of Raft nodes

Nodes with distinct ids that have each other as peers, and the requests and replies
between them.  A node's election and its heartbeat round call one peer after the other
and hold `state_mutex_` throughout, so that a node in the middle of either serves no
request and no client; the log applier needs `log_mutex_` alone, which a heartbeat round
holds during each call.

A request is never taken out of the network: it may be delivered at any time, more than
once, or never, and its sender may give up on the answer at any time.  That covers lost,
delayed and duplicated messages, and an answer that `receive` would not return, because
its frame is empty, is not an answer.

`history` is what an observer would write down.  No step reads it.

## Main definitions

* `ClusterConfig` — the ids, the addresses, and every node's list of peers.
* `Cluster`, `Cluster.Action`, `Cluster.step` — the transition system `cluster`.
* `Cluster.Effect`, `Cluster.after` — what a step changes.
* `Cluster.Step` — the steps again, one constructor for each.

## Main results

* `Cluster.step_cases` — what a step can do.
-/

open Rpc

structure ClusterConfig where
  members : List Bytes
  nodup : members.Nodup
  host : Bytes → Bytes
  port : Bytes → ℤ
  /-- The peers of each node, in the order in which it calls them. -/
  peers : Bytes → List Bytes
  peers_perm : ∀ i ∈ members, (peers i).Perm (members.erase i)

/-- The list of peers a node is constructed with. -/
def ClusterConfig.peerList (cfg : ClusterConfig) (i : Bytes) : List RaftPeer :=
  (cfg.peers i).map fun id => ⟨id, cfg.host id, cfg.port id⟩

inductive Request where
  | requestVote (request : RequestVoteRequest)
  | appendEntries (request : AppendEntriesRequest)
  deriving DecidableEq, Repr

inductive Response where
  | requestVote (response : RequestVoteResponse)
  | appendEntries (response : AppendEntriesResponse)
  deriving DecidableEq, Repr

/-- A request in the network; its position there identifies the call. -/
structure Envelope where
  src : Bytes
  dst : Bytes
  body : Request
  deriving DecidableEq, Repr

/-- The answer to a call. -/
structure Reply where
  call : ℕ
  body : Response
  deriving DecidableEq, Repr

/-- What the thread that holds a node's `state_mutex_` between two steps is doing. -/
inductive Activity where
  | idle
  | electing (request : RequestVoteRequest) (remaining : List RaftPeer) (votes : ℕ)
  | awaitingVote (request : RequestVoteRequest) (remaining : List RaftPeer) (votes call : ℕ)
  | heartbeating (next : ℕ)
  | awaitingAppend (next call : ℕ)
  deriving DecidableEq, Repr

/-- What an observer writes down. -/
inductive Event where
  /-- A vote, with the log the voter had. -/
  | voted (voter : Bytes) (term : ℤ) (candidate : Bytes) (log : List LogEntry)
  /-- A node that becomes leader, with its term and its log. -/
  | elected (node : Bytes) (term : ℤ) (log : List LogEntry)
  /-- An entry a leader appends to its log. -/
  | proposed (node : Bytes) (entry : LogEntry)
  /-- An append request that is accepted, with its term and the log up to its last entry. -/
  | accepted (node : Bytes) (term : ℤ) (log : List LogEntry)
  /-- An operation answered with `success = true`: its entry, and where it is. -/
  | acknowledged (node : Bytes) (index : ℕ) (entry : LogEntry)
  /-- An entry passed to the state machine as the one of the given index. -/
  | applied (node : Bytes) (index : ℤ) (entry : LogEntry)
  deriving DecidableEq, Repr

/-- The node at which the event happened. -/
def Event.node : Event → Bytes
  | .voted i _ _ _ => i
  | .elected i _ _ => i
  | .proposed i _ => i
  | .accepted i _ _ => i
  | .acknowledged i _ _ => i
  | .applied i _ _ => i

structure Cluster where
  nodes : Bytes → RaftNode
  activity : Bytes → Activity := fun _ => .idle
  requests : List Envelope := []
  replies : List Reply := []
  history : List Event := []

/-- What a client, or code above the node, asks for. -/
inductive Operation where
  | propose (operation data : Bytes)
  | serviceRegister (request : ServiceRegisterRequest) (timestamp : ℤ)
  | heartbeat (request : HeartbeatRequest) (timestamp : ℤ)
  deriving DecidableEq, Repr

/-- The client is told `success = true` when the entry is appended. -/
def Operation.acknowledged : Operation → Bool
  | .propose .. => false
  | .serviceRegister .. => true
  | .heartbeat .. => true

inductive Cluster.Action where
  | electionTimeout (i : Bytes)
  | sendRequestVote (i : Bytes)
  | receiveVote (i : Bytes) (reply : ℕ)
  | loseVote (i : Bytes)
  | finishElection (i : Bytes)
  | startHeartbeat (i : Bytes)
  | sendAppendEntries (i : Bytes)
  | receiveAppend (i : Bytes) (reply : ℕ)
  | loseAppend (i : Bytes)
  | finishHeartbeat (i : Bytes)
  | deliver (call : ℕ)
  | operate (i : Bytes) (operation : Operation)
  | applyCommitted (i : Bytes)
  deriving DecidableEq, Repr

namespace Cluster

/-! ### Steps -/

/-- What a step of one node comes to. -/
structure Effect where
  node : RaftNode
  activity : Activity
  requests : List Envelope := []
  replies : List Reply := []
  /-- The latest first. -/
  events : List Event := []

/-- The cluster after a step of node `i`. -/
def after (s : Cluster) (i : Bytes) (e : Effect) : Cluster where
  nodes := Function.update s.nodes i e.node
  activity := Function.update s.activity i e.activity
  requests := s.requests ++ e.requests
  replies := s.replies ++ e.replies
  history := e.events ++ s.history

/-- What is written down of an entry that is appended, and perhaps acknowledged. -/
def proposeEvents (i : Bytes) (acknowledged : Bool) (index : ℕ) (entry : LogEntry) : List Event :=
  (if acknowledged then [.acknowledged i index entry] else []) ++ [.proposed i entry]

/-- What is written down of an operation: the entry it left at the end of the log. -/
def operationEvents (i : Bytes) (acknowledged : Bool) (n : RaftNode) : List Event :=
  n.log.getLast?.elim [] (proposeEvents i acknowledged n.log.length)

/-- An operation on a node: the node afterwards and what is written down. -/
def operate (i : Bytes) (n : RaftNode) : Operation → RaftNode × List Event
  | .propose operation data =>
      let (n', success) := n.proposeLogEntry operation data
      (n', if success then operationEvents i false n' else [])
  | .serviceRegister request timestamp =>
      let (n', response) := DistributedRegistryServer.handleServiceRegister n request timestamp
      (n', if response.success then operationEvents i true n' else [])
  | .heartbeat request timestamp =>
      let (n', response) := DistributedRegistryServer.handleHeartbeat n request timestamp
      (n', if response.success then operationEvents i true n' else [])

/-- What is written down of a handled vote request. -/
def voteEvents (i : Bytes) (n : RaftNode) (request : RequestVoteRequest)
    (response : RequestVoteResponse) : List Event :=
  if response.voteGranted then [.voted i request.term request.candidateId n.log] else []

/-- What is written down of a handled append request. -/
def appendEvents (i : Bytes) (n : RaftNode) (request : AppendEntriesRequest)
    (response : AppendEntriesResponse) : List Event :=
  if response.success then
    [.accepted i request.term (n.log.take (request.prevLogIndex.toNat + request.entries.length))]
  else []

/-- One step of the cluster. -/
def step (cfg : ClusterConfig) (s : Cluster) : Action → Option Cluster
  | .electionTimeout i =>
      -- the timer's thread locks `state_mutex_` and keeps it until the election is over
      if i ∈ cfg.members ∧ s.activity i = .idle ∧ (s.nodes i).role ≠ .leader then
        let (n, request) := (s.nodes i).startElection
        some
          (s.after i
            { node := n
              activity := .electing request n.peers 1
              events := [.voted i request.term i n.log] })
      else none
  | .sendRequestVote i =>
      match s.activity i with
      | .electing request (peer :: remaining) votes =>
          some
            (s.after i
              { node := s.nodes i
                activity := .awaitingVote request remaining votes s.requests.length
                requests := [⟨i, peer.nodeId, .requestVote request⟩] })
      | _ => none
  | .receiveVote i reply =>
      match s.activity i, s.replies[reply]? with
      | .awaitingVote request remaining votes call, some ⟨call', .requestVote response⟩ =>
          -- an answer that is all defaults is an empty frame, which counts as none
          if call' = call ∧ response ≠ {} then
            let (n, granted) := (s.nodes i).handleVoteReply response
            some
              (s.after i
                { node := n
                  activity := .electing request remaining (if granted then votes + 1 else votes) })
          else none
      | _, _ => none
  | .loseVote i =>
      match s.activity i with
      | .awaitingVote request remaining votes _ =>
          some (s.after i { node := s.nodes i, activity := .electing request remaining votes })
      | _ => none
  | .finishElection i =>
      match s.activity i with
      | .electing _ [] votes =>
          let n := (s.nodes i).finishElection votes
          some
            (s.after i
              { node := n
                activity := .idle
                events := if n.role = .leader then [.elected i n.currentTerm n.log] else [] })
      | _ => none
  | .startHeartbeat i =>
      if i ∈ cfg.members ∧ s.activity i = .idle ∧ (s.nodes i).role = .leader then
        some (s.after i { node := s.nodes i, activity := .heartbeating 0 })
      else none
  | .sendAppendEntries i =>
      match s.activity i with
      | .heartbeating next =>
          match (s.nodes i).peers[next]?, (s.nodes i).appendEntriesRequest next with
          | some peer, some request =>
              some
                (s.after i
                  { node := s.nodes i
                    activity := .awaitingAppend next s.requests.length
                    requests := [⟨i, peer.nodeId, .appendEntries request⟩] })
          | _, _ => none
      | _ => none
  | .receiveAppend i reply =>
      match s.activity i, s.replies[reply]? with
      | .awaitingAppend next call, some ⟨call', .appendEntries response⟩ =>
          match (s.nodes i).peers[next]? with
          | some peer =>
              if call' = call ∧ response ≠ {} then
                some
                  (s.after i
                    { node := (s.nodes i).handleAppendReply peer response
                      activity := .heartbeating (next + 1) })
              else none
          | none => none
      | _, _ => none
  | .loseAppend i =>
      match s.activity i with
      | .awaitingAppend next _ =>
          some (s.after i { node := s.nodes i, activity := .heartbeating (next + 1) })
      | _ => none
  | .finishHeartbeat i =>
      match s.activity i with
      | .heartbeating next =>
          if (s.nodes i).peers.length ≤ next then
            some (s.after i { node := s.nodes i, activity := .idle })
          else none
      | _ => none
  | .deliver call =>
      match s.requests[call]? with
      | some ⟨_, dst, body⟩ =>
          -- the handler waits for `state_mutex_`
          if s.activity dst = .idle then
            match body with
            | .requestVote request =>
                let (n, response) := (s.nodes dst).handleRequestVote request
                some
                  (s.after dst
                    { node := n
                      activity := .idle
                      replies := [⟨call, .requestVote response⟩]
                      events := voteEvents dst n request response })
            | .appendEntries request =>
                ((s.nodes dst).handleAppendEntries request).map fun (n, response) =>
                  s.after dst
                    { node := n
                      activity := .idle
                      replies := [⟨call, .appendEntries response⟩]
                      events := appendEvents dst n request response }
          else none
      | none => none
  | .operate i operation =>
      if i ∈ cfg.members ∧ s.activity i = .idle then
        let (n, events) := Cluster.operate i (s.nodes i) operation
        some (s.after i { node := n, activity := .idle, events := events })
      else none
  | .applyCommitted i =>
      match s.activity i with
      -- a call of a heartbeat round is made with `log_mutex_` held
      | .awaitingAppend _ _ => none
      | _ =>
          let (n, entries) := (s.nodes i).applyCommittedEntries
          some
            (s.after i
              { node := n
                activity := s.activity i
                events := entries.reverse.map fun p => .applied i p.1 p.2 })

/-- The state the constructors leave. -/
def start (cfg : ClusterConfig) : Cluster where
  nodes i := RaftNode.new i (cfg.host i) (cfg.port i) (cfg.peerList i)

/-! ### The steps, one by one -/

/-- The steps of the cluster: which node takes it, what it requires and what it comes to. -/
inductive Step (cfg : ClusterConfig) (s : Cluster) : Action → Bytes → Effect → Prop where
  | electionTimeout (i : Bytes) (hmem : i ∈ cfg.members) (hidle : s.activity i = .idle)
      (hrole : (s.nodes i).role ≠ .leader) :
      Step cfg s (.electionTimeout i) i
        { node := (s.nodes i).startElection.1
          activity := .electing (s.nodes i).startElection.2 (s.nodes i).peers 1
          events := [.voted i (s.nodes i).startElection.2.term i (s.nodes i).log] }
  | sendRequestVote (i : Bytes) (request : RequestVoteRequest) (peer : RaftPeer)
      (remaining : List RaftPeer) (votes : ℕ)
      (hact : s.activity i = .electing request (peer :: remaining) votes) :
      Step cfg s (.sendRequestVote i) i
        { node := s.nodes i
          activity := .awaitingVote request remaining votes s.requests.length
          requests := [⟨i, peer.nodeId, .requestVote request⟩] }
  | receiveVote (i : Bytes) (reply : ℕ) (request : RequestVoteRequest)
      (remaining : List RaftPeer) (votes call : ℕ) (response : RequestVoteResponse)
      (hact : s.activity i = .awaitingVote request remaining votes call)
      (hreply : s.replies[reply]? = some ⟨call, .requestVote response⟩) :
      Step cfg s (.receiveVote i reply) i
        { node := ((s.nodes i).handleVoteReply response).1
          activity := .electing request remaining
            (if ((s.nodes i).handleVoteReply response).2 then votes + 1 else votes) }
  | loseVote (i : Bytes) (request : RequestVoteRequest) (remaining : List RaftPeer)
      (votes call : ℕ) (hact : s.activity i = .awaitingVote request remaining votes call) :
      Step cfg s (.loseVote i) i
        { node := s.nodes i, activity := .electing request remaining votes }
  | winElection (i : Bytes) (request : RequestVoteRequest) (votes : ℕ)
      (hact : s.activity i = .electing request [] votes)
      (hwin : (s.nodes i).majority ≤ votes) :
      Step cfg s (.finishElection i) i
        { node := (s.nodes i).becomeLeader
          activity := .idle
          events := [.elected i (s.nodes i).currentTerm (s.nodes i).log] }
  | failElection (i : Bytes) (request : RequestVoteRequest) (votes : ℕ)
      (hact : s.activity i = .electing request [] votes) :
      Step cfg s (.finishElection i) i
        { node := (s.nodes i).becomeFollower (s.nodes i).currentTerm [], activity := .idle }
  | startHeartbeat (i : Bytes) (hmem : i ∈ cfg.members) (hidle : s.activity i = .idle)
      (hrole : (s.nodes i).role = .leader) :
      Step cfg s (.startHeartbeat i) i { node := s.nodes i, activity := .heartbeating 0 }
  | sendAppendEntries (i : Bytes) (next : ℕ) (peer : RaftPeer) (request : AppendEntriesRequest)
      (hact : s.activity i = .heartbeating next) (hpeer : (s.nodes i).peers[next]? = some peer)
      (hrequest : (s.nodes i).appendEntriesRequest next = some request) :
      Step cfg s (.sendAppendEntries i) i
        { node := s.nodes i
          activity := .awaitingAppend next s.requests.length
          requests := [⟨i, peer.nodeId, .appendEntries request⟩] }
  | receiveAppend (i : Bytes) (reply next call : ℕ) (peer : RaftPeer)
      (response : AppendEntriesResponse) (hact : s.activity i = .awaitingAppend next call)
      (hreply : s.replies[reply]? = some ⟨call, .appendEntries response⟩)
      (hpeer : (s.nodes i).peers[next]? = some peer) :
      Step cfg s (.receiveAppend i reply) i
        { node := (s.nodes i).handleAppendReply peer response
          activity := .heartbeating (next + 1) }
  | loseAppend (i : Bytes) (next call : ℕ) (hact : s.activity i = .awaitingAppend next call) :
      Step cfg s (.loseAppend i) i { node := s.nodes i, activity := .heartbeating (next + 1) }
  | finishHeartbeat (i : Bytes) (next : ℕ) (hact : s.activity i = .heartbeating next) :
      Step cfg s (.finishHeartbeat i) i { node := s.nodes i, activity := .idle }
  | deliverVote (call : ℕ) (src dst : Bytes) (request : RequestVoteRequest) (n : RaftNode)
      (response : RequestVoteResponse)
      (hrequest : s.requests[call]? = some ⟨src, dst, .requestVote request⟩)
      (hidle : s.activity dst = .idle)
      (hhandle : (s.nodes dst).handleRequestVote request = (n, response)) :
      Step cfg s (.deliver call) dst
        { node := n
          activity := .idle
          replies := [⟨call, .requestVote response⟩]
          events := voteEvents dst n request response }
  | deliverAppend (call : ℕ) (src dst : Bytes) (request : AppendEntriesRequest) (n : RaftNode)
      (response : AppendEntriesResponse)
      (hrequest : s.requests[call]? = some ⟨src, dst, .appendEntries request⟩)
      (hidle : s.activity dst = .idle)
      (hhandle : (s.nodes dst).handleAppendEntries request = some (n, response)) :
      Step cfg s (.deliver call) dst
        { node := n
          activity := .idle
          replies := [⟨call, .appendEntries response⟩]
          events := appendEvents dst n request response }
  | propose (i : Bytes) (operation : Operation) (entry : LogEntry) (acknowledged : Bool)
      (hmem : i ∈ cfg.members) (hidle : s.activity i = .idle)
      (hrole : (s.nodes i).role = .leader) (hterm : entry.term = (s.nodes i).currentTerm)
      (hindex : entry.index = (s.nodes i).getLastLogIndex + 1)
      (hack : acknowledged = operation.acknowledged) :
      Step cfg s (.operate i operation) i
        { node := { s.nodes i with log := (s.nodes i).log ++ [entry] }
          activity := .idle
          events := proposeEvents i acknowledged ((s.nodes i).log.length + 1) entry }
  | refuse (i : Bytes) (operation : Operation) (hidle : s.activity i = .idle) :
      Step cfg s (.operate i operation) i { node := s.nodes i, activity := .idle }
  | applyCommitted (i : Bytes) (hact : ∀ next call, s.activity i ≠ .awaitingAppend next call) :
      Step cfg s (.applyCommitted i) i
        { node := (s.nodes i).applyCommittedEntries.1
          activity := s.activity i
          events := (s.nodes i).applyCommittedEntries.2.reverse.map fun p => .applied i p.1 p.2 }

/-- An operation is refused, or appends an entry of the leader's term. -/
theorem operate_cases (i : Bytes) (n : RaftNode) (operation : Operation) :
    Cluster.operate i n operation = (n, []) ∨
      n.role = .leader ∧ ∃ (entry : LogEntry) (acknowledged : Bool),
        entry.term = n.currentTerm ∧ entry.index = n.getLastLogIndex + 1 ∧
        acknowledged = operation.acknowledged ∧
        Cluster.operate i n operation =
          ({ n with log := n.log ++ [entry] },
            proposeEvents i acknowledged (n.log.length + 1) entry) := by
  by_cases hrole : n.role = .leader
  · refine Or.inr ⟨hrole, ?_⟩
    cases operation with
    | propose operation data =>
      refine ⟨n.proposal operation data, false, rfl, rfl, rfl, ?_⟩
      simp [Cluster.operate, RaftNode.proposeLogEntry, hrole, operationEvents]
    | serviceRegister request timestamp =>
      refine ⟨DistributedRegistryServer.registerEntry n request timestamp, true, rfl, rfl, rfl, ?_⟩
      simp [Cluster.operate, DistributedRegistryServer.handleServiceRegister_eq, hrole,
        operationEvents]
    | heartbeat request timestamp =>
      refine ⟨DistributedRegistryServer.heartbeatEntry n request timestamp, true, rfl, rfl, rfl, ?_⟩
      simp [Cluster.operate, DistributedRegistryServer.handleHeartbeat_eq, hrole, operationEvents]
  · refine Or.inl ?_
    cases operation with
    | propose operation data => simp [Cluster.operate, RaftNode.proposeLogEntry, hrole]
    | serviceRegister request timestamp =>
      simp [Cluster.operate, DistributedRegistryServer.handleServiceRegister_eq, hrole]
    | heartbeat request timestamp =>
      simp [Cluster.operate, DistributedRegistryServer.handleHeartbeat_eq, hrole]

/-- **What a step can do.** -/
theorem step_cases {cfg : ClusterConfig} {s t : Cluster} {a : Action}
    (h : step cfg s a = some t) : ∃ i e, Step cfg s a i e ∧ t = s.after i e := by
  cases a with
  | electionTimeout i =>
    simp only [step, Option.ite_none_right_eq_some, Option.some.injEq] at h
    obtain ⟨⟨hmem, hidle, hrole⟩, rfl⟩ := h
    exact ⟨i, _, .electionTimeout i hmem hidle hrole, rfl⟩
  | sendRequestVote i =>
    simp only [step] at h
    split at h
    · next request peer remaining votes hact =>
      exact ⟨i, _, .sendRequestVote i request peer remaining votes hact, (Option.some.inj h).symm⟩
    · simp at h
  | receiveVote i reply =>
    simp only [step] at h
    split at h
    · next request remaining votes call call' response hact hreply =>
      simp only [Option.ite_none_right_eq_some, Option.some.injEq] at h
      obtain ⟨⟨rfl, -⟩, rfl⟩ := h
      exact ⟨i, _, .receiveVote i reply request remaining votes call' response hact hreply, rfl⟩
    · simp at h
  | loseVote i =>
    simp only [step] at h
    split at h
    · next request remaining votes call hact =>
      exact ⟨i, _, .loseVote i request remaining votes call hact, (Option.some.inj h).symm⟩
    · simp at h
  | finishElection i =>
    simp only [step] at h
    split at h
    · next request votes hact =>
      rw [← Option.some.inj h]
      by_cases hwin : (s.nodes i).majority ≤ votes
      · rw [RaftNode.finishElection, if_pos hwin]
        exact ⟨i, _, .winElection i request votes hact hwin, rfl⟩
      · rw [RaftNode.finishElection, if_neg hwin]
        exact ⟨i, _, .failElection i request votes hact, rfl⟩
    · simp at h
  | startHeartbeat i =>
    simp only [step, Option.ite_none_right_eq_some, Option.some.injEq] at h
    obtain ⟨⟨hmem, hidle, hrole⟩, rfl⟩ := h
    exact ⟨i, _, .startHeartbeat i hmem hidle hrole, rfl⟩
  | sendAppendEntries i =>
    simp only [step] at h
    split at h
    · next next hact =>
      split at h
      · next peer request hpeer hrequest =>
        exact ⟨i, _, .sendAppendEntries i next peer request hact hpeer hrequest,
          (Option.some.inj h).symm⟩
      · simp at h
    · simp at h
  | receiveAppend i reply =>
    simp only [step] at h
    split at h
    · next next call call' response hact hreply =>
      split at h
      · next peer hpeer =>
        simp only [Option.ite_none_right_eq_some, Option.some.injEq] at h
        obtain ⟨⟨rfl, -⟩, rfl⟩ := h
        exact ⟨i, _, .receiveAppend i reply next call' peer response hact hreply hpeer, rfl⟩
      · simp at h
    · simp at h
  | loseAppend i =>
    simp only [step] at h
    split at h
    · next next call hact =>
      exact ⟨i, _, .loseAppend i next call hact, (Option.some.inj h).symm⟩
    · simp at h
  | finishHeartbeat i =>
    simp only [step] at h
    split at h
    · next next hact =>
      simp only [Option.ite_none_right_eq_some, Option.some.injEq] at h
      obtain ⟨-, rfl⟩ := h
      exact ⟨i, _, .finishHeartbeat i next hact, rfl⟩
    · simp at h
  | deliver call =>
    simp only [step] at h
    split at h
    · next src dst body hrequest =>
      simp only [Option.ite_none_right_eq_some] at h
      obtain ⟨hidle, h⟩ := h
      cases body with
      | requestVote request =>
        exact ⟨dst, _, .deliverVote call src dst request _ _ hrequest hidle rfl,
          (Option.some.inj h).symm⟩
      | appendEntries request =>
        obtain ⟨⟨n, response⟩, hhandle, rfl⟩ := Option.map_eq_some_iff.mp h
        exact ⟨dst, _, .deliverAppend call src dst request n response hrequest hidle hhandle, rfl⟩
    · simp at h
  | operate i operation =>
    simp only [step, Option.ite_none_right_eq_some, Option.some.injEq] at h
    obtain ⟨⟨hmem, hidle⟩, rfl⟩ := h
    rcases operate_cases i (s.nodes i) operation with hop |
      ⟨hrole, entry, acknowledged, hterm, hindex, hack, hop⟩
    · simp only [hop]
      exact ⟨i, _, .refuse i operation hidle, rfl⟩
    · simp only [hop]
      exact ⟨i, _, .propose i operation entry acknowledged hmem hidle hrole hterm hindex hack, rfl⟩
  | applyCommitted i =>
    simp only [step] at h
    split at h
    · simp at h
    · next hact =>
      exact ⟨i, _, .applyCommitted i hact, (Option.some.inj h).symm⟩

end Cluster

/-- The cluster, from its start. -/
def cluster (cfg : ClusterConfig) : System Cluster Cluster.Action where
  init := Cluster.start cfg
  step := Cluster.step cfg
