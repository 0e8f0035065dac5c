import RpcFramework.Raft.Invariant

/-!
# One node on its own

A node and whatever the network brings it: requests and answers with any contents, in any
order.  It takes the same steps as a node of the cluster, and the cluster's runs are, seen
from any of its nodes, runs of that node on its own.

What the node has said in public is written down: the votes it cast and the append
requests it sent.  No step reads it.

## Main definitions

* `Solo`, `Solo.step` — the transition system `solo`.
* `Solo.Step` — the steps again, one constructor for each.

## Main results

* `Solo.step_cases` — what a step can do.
* `cluster_solo` — **a node of the cluster takes the steps of a node on its own.**
-/

open Rpc

structure Solo where
  node : RaftNode
  activity : Activity := .idle
  /-- The votes cast, each with its term, the latest first. -/
  votes : List (ℤ × Bytes) := []
  /-- The append requests, each with the node that built it as it then was; one is written down
  also where the peer turns out not to be reached. -/
  sent : List (AppendEntriesRequest × RaftNode) := []

namespace Solo

/-- A call carries the number by which its answer will be known. -/
inductive Action where
  | electionTimeout
  | sendRequestVote (call : ℕ)
  | receiveVote (response : RequestVoteResponse)
  | loseVote
  | finishElection
  | startHeartbeat
  | sendAppendEntries (call : ℕ)
  | receiveAppend (response : AppendEntriesResponse)
  | loseAppend
  | finishHeartbeat
  | requestVote (request : RequestVoteRequest)
  | appendEntries (request : AppendEntriesRequest)
  | operate (operation : Operation)
  | applyCommitted
  deriving DecidableEq, Repr

/-- The vote that an answer to a vote request is, if it is one. -/
def grant (request : RequestVoteRequest) (response : RequestVoteResponse) : List (ℤ × Bytes) :=
  if response.voteGranted then [(request.term, request.candidateId)] else []

/-- One step of the node. -/
def step (s : Solo) : Action → Option Solo
  | .electionTimeout =>
      if s.activity = .idle ∧ s.node.role ≠ .leader then
        let (n, request) := s.node.startElection
        some
          { s with
            node := n
            activity := .electing request n.peers 1
            votes := (request.term, n.votedFor) :: s.votes }
      else none
  | .sendRequestVote call =>
      match s.activity with
      | .electing request (_ :: remaining) votes =>
          some { s with activity := .awaitingVote request remaining votes call }
      | _ => none
  | .receiveVote response =>
      match s.activity with
      | .awaitingVote request remaining votes _ =>
          if response ≠ {} then
            let (n, granted) := s.node.handleVoteReply response
            some
              { s with
                node := n
                activity := .electing request remaining (if granted then votes + 1 else votes) }
          else none
      | _ => none
  | .loseVote =>
      match s.activity with
      | .awaitingVote request remaining votes _ =>
          some { s with activity := .electing request remaining votes }
      | _ => none
  | .finishElection =>
      match s.activity with
      | .electing _ [] votes =>
          some { s with node := s.node.finishElection votes, activity := .idle }
      | _ => none
  | .startHeartbeat =>
      if s.activity = .idle ∧ s.node.role = .leader then
        some { s with activity := .heartbeating 0 }
      else none
  | .sendAppendEntries call =>
      match s.activity with
      | .heartbeating next =>
          match s.node.peers[next]?, s.node.appendEntriesRequest next with
          | some _, some request =>
              some
                { s with
                  activity := .awaitingAppend next call
                  sent := (request, s.node) :: s.sent }
          | _, _ => none
      | _ => none
  | .receiveAppend response =>
      match s.activity with
      | .awaitingAppend next _ =>
          match s.node.peers[next]? with
          | some peer =>
              if response ≠ {} then
                some
                  { s with
                    node := s.node.handleAppendReply peer response
                    activity := .heartbeating (next + 1) }
              else none
          | none => none
      | _ => none
  | .loseAppend =>
      match s.activity with
      | .awaitingAppend next _ => some { s with activity := .heartbeating (next + 1) }
      | _ => none
  | .finishHeartbeat =>
      match s.activity with
      | .heartbeating next =>
          if s.node.peers.length ≤ next then some { s with activity := .idle } else none
      | _ => none
  | .requestVote request =>
      if s.activity = .idle then
        let (n, response) := s.node.handleRequestVote request
        some { s with node := n, votes := grant request response ++ s.votes }
      else none
  | .appendEntries request =>
      if s.activity = .idle then
        (s.node.handleAppendEntries request).map fun (n, _) => { s with node := n }
      else none
  | .operate operation =>
      if s.activity = .idle then
        some { s with node := (Cluster.operate s.node.nodeId s.node operation).1 }
      else none
  | .applyCommitted =>
      match s.activity with
      -- a call of a heartbeat round is made with `log_mutex_` held
      | .awaitingAppend _ _ => none
      | _ => some { s with node := s.node.applyCommittedEntries.1 }

/-- The steps of the node: what each requires and what it comes to. -/
inductive Step (s : Solo) : Action → Solo → Prop where
  | electionTimeout (hidle : s.activity = .idle) (hrole : s.node.role ≠ .leader) :
      Step s .electionTimeout
        { s with
          node := s.node.startElection.1
          activity := .electing s.node.startElection.2 s.node.startElection.1.peers 1
          votes := (s.node.startElection.2.term, s.node.nodeId) :: s.votes }
  | sendRequestVote (call : ℕ) (request : RequestVoteRequest) (peer : RaftPeer)
      (remaining : List RaftPeer) (votes : ℕ)
      (hact : s.activity = .electing request (peer :: remaining) votes) :
      Step s (.sendRequestVote call)
        { s with activity := .awaitingVote request remaining votes call }
  | receiveVote (request : RequestVoteRequest) (remaining : List RaftPeer) (votes call : ℕ)
      (response : RequestVoteResponse)
      (hact : s.activity = .awaitingVote request remaining votes call) (hsome : response ≠ {}) :
      Step s (.receiveVote response)
        { s with
          node := (s.node.handleVoteReply response).1
          activity := .electing request remaining
            (if (s.node.handleVoteReply response).2 then votes + 1 else votes) }
  | loseVote (request : RequestVoteRequest) (remaining : List RaftPeer) (votes call : ℕ)
      (hact : s.activity = .awaitingVote request remaining votes call) :
      Step s .loseVote { s with activity := .electing request remaining votes }
  | finishElection (request : RequestVoteRequest) (votes : ℕ)
      (hact : s.activity = .electing request [] votes) :
      Step s .finishElection { s with node := s.node.finishElection votes, activity := .idle }
  | startHeartbeat (hidle : s.activity = .idle) (hrole : s.node.role = .leader) :
      Step s .startHeartbeat { s with activity := .heartbeating 0 }
  | sendAppendEntries (call next : ℕ) (peer : RaftPeer) (request : AppendEntriesRequest)
      (hact : s.activity = .heartbeating next) (hpeer : s.node.peers[next]? = some peer)
      (hrequest : s.node.appendEntriesRequest next = some request) :
      Step s (.sendAppendEntries call)
        { s with
          activity := .awaitingAppend next call
          sent := (request, s.node) :: s.sent }
  | receiveAppend (next call : ℕ) (peer : RaftPeer) (response : AppendEntriesResponse)
      (hact : s.activity = .awaitingAppend next call)
      (hpeer : s.node.peers[next]? = some peer) (hsome : response ≠ {}) :
      Step s (.receiveAppend response)
        { s with
          node := s.node.handleAppendReply peer response
          activity := .heartbeating (next + 1) }
  | loseAppend (next call : ℕ) (hact : s.activity = .awaitingAppend next call) :
      Step s .loseAppend { s with activity := .heartbeating (next + 1) }
  | finishHeartbeat (next : ℕ) (hact : s.activity = .heartbeating next)
      (hdone : s.node.peers.length ≤ next) : Step s .finishHeartbeat { s with activity := .idle }
  | requestVote (request : RequestVoteRequest) (n : RaftNode) (response : RequestVoteResponse)
      (hidle : s.activity = .idle) (hhandle : s.node.handleRequestVote request = (n, response)) :
      Step s (.requestVote request) { s with node := n, votes := grant request response ++ s.votes }
  | appendEntries (request : AppendEntriesRequest) (n : RaftNode) (response : AppendEntriesResponse)
      (hidle : s.activity = .idle)
      (hhandle : s.node.handleAppendEntries request = some (n, response)) :
      Step s (.appendEntries request) { s with node := n }
  | operate (operation : Operation) (hidle : s.activity = .idle) :
      Step s (.operate operation)
        { s with node := (Cluster.operate s.node.nodeId s.node operation).1 }
  | applyCommitted (hact : ∀ next call, s.activity ≠ .awaitingAppend next call) :
      Step s .applyCommitted { s with node := s.node.applyCommittedEntries.1 }

/-- **What a step can do.** -/
theorem step_cases {s t : Solo} {a : Action} (h : step s a = some t) : Step s a t := by
  cases a with
  | electionTimeout =>
    simp only [step, Option.ite_none_right_eq_some, Option.some.injEq] at h
    obtain ⟨⟨hidle, hrole⟩, rfl⟩ := h
    exact .electionTimeout hidle hrole
  | sendRequestVote call =>
    simp only [step] at h
    split at h
    · next request peer remaining votes hact =>
      rw [← Option.some.inj h]
      exact .sendRequestVote call request peer remaining votes hact
    · simp at h
  | receiveVote response =>
    simp only [step] at h
    split at h
    · next request remaining votes call hact =>
      simp only [Option.ite_none_right_eq_some, Option.some.injEq] at h
      obtain ⟨hsome, rfl⟩ := h
      exact .receiveVote request remaining votes call response hact hsome
    · simp at h
  | loseVote =>
    simp only [step] at h
    split at h
    · next request remaining votes call hact =>
      rw [← Option.some.inj h]
      exact .loseVote request remaining votes call hact
    · simp at h
  | finishElection =>
    simp only [step] at h
    split at h
    · next request votes hact =>
      rw [← Option.some.inj h]
      exact .finishElection request votes hact
    · simp at h
  | startHeartbeat =>
    simp only [step, Option.ite_none_right_eq_some, Option.some.injEq] at h
    obtain ⟨⟨hidle, hrole⟩, rfl⟩ := h
    exact .startHeartbeat hidle hrole
  | sendAppendEntries call =>
    simp only [step] at h
    split at h
    · next next hact =>
      split at h
      · next peer request hpeer hrequest =>
        rw [← Option.some.inj h]
        exact .sendAppendEntries call next peer request hact hpeer hrequest
      · simp at h
    · simp at h
  | receiveAppend response =>
    simp only [step] at h
    split at h
    · next next call hact =>
      split at h
      · next peer hpeer =>
        simp only [Option.ite_none_right_eq_some, Option.some.injEq] at h
        obtain ⟨hsome, rfl⟩ := h
        exact .receiveAppend next call peer response hact hpeer hsome
      · simp at h
    · simp at h
  | loseAppend =>
    simp only [step] at h
    split at h
    · next next call hact =>
      rw [← Option.some.inj h]
      exact .loseAppend next call hact
    · simp at h
  | finishHeartbeat =>
    simp only [step] at h
    split at h
    · next next hact =>
      simp only [Option.ite_none_right_eq_some, Option.some.injEq] at h
      obtain ⟨hdone, rfl⟩ := h
      exact .finishHeartbeat next hact hdone
    · simp at h
  | requestVote request =>
    simp only [step, Option.ite_none_right_eq_some, Option.some.injEq] at h
    obtain ⟨hidle, rfl⟩ := h
    exact .requestVote request _ _ hidle rfl
  | appendEntries request =>
    simp only [step, Option.ite_none_right_eq_some] at h
    obtain ⟨hidle, h⟩ := h
    obtain ⟨⟨n, response⟩, hhandle, rfl⟩ := Option.map_eq_some_iff.mp h
    exact .appendEntries request n response hidle hhandle
  | operate operation =>
    simp only [step, Option.ite_none_right_eq_some, Option.some.injEq] at h
    obtain ⟨hidle, rfl⟩ := h
    exact .operate operation hidle
  | applyCommitted =>
    simp only [step] at h
    split at h
    · simp at h
    · next hact =>
      rw [← Option.some.inj h]
      exact .applyCommitted hact

end Solo

/-- A node on its own, from its start. -/
def solo (nodeId host : Bytes) (port : ℤ) (peers : List RaftPeer) : System Solo Solo.Action where
  init := { node := RaftNode.new nodeId host port peers }
  step := Solo.step

/-! ### A node of the cluster -/

section Cluster

variable {cfg : ClusterConfig} {s t : Cluster} {i : Bytes} {u : Solo}

/-- The node on its own is in the state that node `i` of the cluster is in. -/
structure Solo.Shows (u : Solo) (s : Cluster) (i : Bytes) : Prop where
  node : u.node = s.nodes i
  activity : u.activity = s.activity i

/-- It is so still, or will be after a step. -/
def Solo.Follows (u : Solo) (s : Cluster) (i : Bytes) : Prop :=
  u.Shows s i ∨ ∃ b u', Solo.step u b = some u' ∧ u'.Shows s i

/-- To follow a step of node `k` it is enough to follow it at that node. -/
theorem Solo.Shows.after (hu : u.Shows s i) {k : Bytes} {e : Cluster.Effect}
    (hstep : k = i → ∃ b u', Solo.step u b = some u' ∧ u'.node = e.node ∧
      u'.activity = e.activity) : u.Follows (s.after k e) i := by
  by_cases hk : k = i
  · obtain ⟨b, u', hb, hnode, hactivity⟩ := hstep hk
    subst hk
    refine Or.inr ⟨b, u', hb, ?_, ?_⟩
    · rw [Cluster.nodes_after_self, hnode]
    · rw [Cluster.activity_after_self, hactivity]
  · refine Or.inl ⟨?_, ?_⟩
    · rw [Cluster.nodes_after_of_ne s k e (Ne.symm hk), hu.node]
    · rw [Cluster.activity_after_of_ne s k e (Ne.symm hk), hu.activity]

/-- What an operation does to the node does not depend on the name in the record. -/
theorem Cluster.operate_fst (j k : Bytes) (n : RaftNode) (operation : Operation) :
    (Cluster.operate j n operation).1 = (Cluster.operate k n operation).1 := by
  cases operation <;> rfl

theorem Solo.Shows.electionTimeout (hu : u.Shows s i) {k : Bytes}
    (h : Cluster.step cfg s (.electionTimeout k) = some t) : u.Follows t i := by
  simp only [Cluster.step, Option.ite_none_right_eq_some, Option.some.injEq] at h
  obtain ⟨⟨-, hidle, hrole⟩, rfl⟩ := h
  refine hu.after ?_
  rintro rfl
  rw [← hu.node] at hrole ⊢
  rw [← hu.activity] at hidle
  exact ⟨.electionTimeout, _, if_pos ⟨hidle, hrole⟩, rfl, rfl⟩

theorem Solo.Shows.sendRequestVote (hu : u.Shows s i) {k : Bytes}
    (h : Cluster.step cfg s (.sendRequestVote k) = some t) : u.Follows t i := by
  simp only [Cluster.step] at h
  split at h
  · next request peer remaining votes hact =>
    rw [← Option.some.inj h]
    refine hu.after ?_
    rintro rfl
    rw [← hu.activity] at hact
    refine ⟨.sendRequestVote s.requests.length,
      { u with activity := .awaitingVote request remaining votes s.requests.length },
      ?_, hu.node, rfl⟩
    simp only [Solo.step, hact]
  · simp at h

theorem Solo.Shows.receiveVote (hu : u.Shows s i) {k : Bytes} {reply : ℕ}
    (h : Cluster.step cfg s (.receiveVote k reply) = some t) : u.Follows t i := by
  simp only [Cluster.step] at h
  split at h
  · next request remaining votes call call' response hact hreply =>
    simp only [Option.ite_none_right_eq_some, Option.some.injEq] at h
    obtain ⟨⟨-, hsome⟩, rfl⟩ := h
    refine hu.after ?_
    rintro rfl
    rw [← hu.node]
    rw [← hu.activity] at hact
    refine ⟨.receiveVote response,
      { u with
        node := (u.node.handleVoteReply response).1
        activity := .electing request remaining
          (if (u.node.handleVoteReply response).2 then votes + 1 else votes) }, ?_, rfl, rfl⟩
    simp only [Solo.step, hact]
    exact if_pos hsome
  · simp at h

theorem Solo.Shows.loseVote (hu : u.Shows s i) {k : Bytes}
    (h : Cluster.step cfg s (.loseVote k) = some t) : u.Follows t i := by
  simp only [Cluster.step] at h
  split at h
  · next request remaining votes call hact =>
    rw [← Option.some.inj h]
    refine hu.after ?_
    rintro rfl
    rw [← hu.activity] at hact
    refine ⟨.loseVote, { u with activity := .electing request remaining votes },
      ?_, hu.node, rfl⟩
    simp only [Solo.step, hact]
  · simp at h

theorem Solo.Shows.finishElection (hu : u.Shows s i) {k : Bytes}
    (h : Cluster.step cfg s (.finishElection k) = some t) : u.Follows t i := by
  simp only [Cluster.step] at h
  split at h
  · next request votes hact =>
    rw [← Option.some.inj h]
    refine hu.after ?_
    rintro rfl
    rw [← hu.node]
    rw [← hu.activity] at hact
    refine ⟨.finishElection,
      { u with node := u.node.finishElection votes, activity := .idle }, ?_, rfl, rfl⟩
    simp only [Solo.step, hact]
  · simp at h

theorem Solo.Shows.startHeartbeat (hu : u.Shows s i) {k : Bytes}
    (h : Cluster.step cfg s (.startHeartbeat k) = some t) : u.Follows t i := by
  simp only [Cluster.step, Option.ite_none_right_eq_some, Option.some.injEq] at h
  obtain ⟨⟨-, hidle, hrole⟩, rfl⟩ := h
  refine hu.after ?_
  rintro rfl
  rw [← hu.node] at hrole
  rw [← hu.activity] at hidle
  exact ⟨.startHeartbeat, _, if_pos ⟨hidle, hrole⟩, hu.node, rfl⟩

theorem Solo.Shows.sendAppendEntries (hu : u.Shows s i) {k : Bytes}
    (h : Cluster.step cfg s (.sendAppendEntries k) = some t) : u.Follows t i := by
  simp only [Cluster.step] at h
  split at h
  · next next hact =>
    split at h
    · next peer request hpeer hrequest =>
      rw [← Option.some.inj h]
      refine hu.after ?_
      rintro rfl
      rw [← hu.node] at hpeer hrequest
      rw [← hu.activity] at hact
      refine ⟨.sendAppendEntries s.requests.length,
        { u with
          activity := .awaitingAppend next s.requests.length
          sent := (request, u.node) :: u.sent }, ?_, hu.node, rfl⟩
      simp only [Solo.step, hact, hpeer, hrequest]
    · simp at h
  · simp at h

theorem Solo.Shows.receiveAppend (hu : u.Shows s i) {k : Bytes} {reply : ℕ}
    (h : Cluster.step cfg s (.receiveAppend k reply) = some t) : u.Follows t i := by
  simp only [Cluster.step] at h
  split at h
  · next next call call' response hact hreply =>
    split at h
    · next peer hpeer =>
      simp only [Option.ite_none_right_eq_some, Option.some.injEq] at h
      obtain ⟨⟨-, hsome⟩, rfl⟩ := h
      refine hu.after ?_
      rintro rfl
      rw [← hu.node] at hpeer ⊢
      rw [← hu.activity] at hact
      refine ⟨.receiveAppend response,
        { u with
          node := u.node.handleAppendReply peer response
          activity := .heartbeating (next + 1) }, ?_, rfl, rfl⟩
      simp only [Solo.step, hact, hpeer]
      exact if_pos hsome
    · simp at h
  · simp at h

theorem Solo.Shows.loseAppend (hu : u.Shows s i) {k : Bytes}
    (h : Cluster.step cfg s (.loseAppend k) = some t) : u.Follows t i := by
  simp only [Cluster.step] at h
  split at h
  · next next call hact =>
    rw [← Option.some.inj h]
    refine hu.after ?_
    rintro rfl
    rw [← hu.activity] at hact
    refine ⟨.loseAppend, { u with activity := .heartbeating (next + 1) }, ?_, hu.node, rfl⟩
    simp only [Solo.step, hact]
  · simp at h

theorem Solo.Shows.finishHeartbeat (hu : u.Shows s i) {k : Bytes}
    (h : Cluster.step cfg s (.finishHeartbeat k) = some t) : u.Follows t i := by
  simp only [Cluster.step] at h
  split at h
  · next next hact =>
    simp only [Option.ite_none_right_eq_some, Option.some.injEq] at h
    obtain ⟨hdone, rfl⟩ := h
    refine hu.after ?_
    rintro rfl
    rw [← hu.node] at hdone
    rw [← hu.activity] at hact
    refine ⟨.finishHeartbeat, { u with activity := .idle }, ?_, hu.node, rfl⟩
    simp only [Solo.step, hact]
    exact if_pos hdone
  · simp at h

theorem Solo.Shows.deliver (hu : u.Shows s i) {call : ℕ}
    (h : Cluster.step cfg s (.deliver call) = some t) : u.Follows t i := by
  simp only [Cluster.step] at h
  split at h
  -- a request that arrives is one the network brings the node on its own
  · next src k body hrequest =>
    simp only [Option.ite_none_right_eq_some] at h
    obtain ⟨hidle, h⟩ := h
    cases body with
    | requestVote request =>
      rw [← Option.some.inj h]
      refine hu.after ?_
      rintro rfl
      rw [← hu.node]
      rw [← hu.activity] at hidle
      exact ⟨.requestVote request, _, if_pos hidle, rfl, hidle⟩
    | appendEntries request =>
      obtain ⟨⟨n, response⟩, hhandle, rfl⟩ := Option.map_eq_some_iff.mp h
      refine hu.after ?_
      rintro rfl
      rw [← hu.node] at hhandle
      rw [← hu.activity] at hidle
      refine ⟨.appendEntries request, { u with node := n }, ?_, rfl, hidle⟩
      simp only [Solo.step, hidle, hhandle, if_true, Option.map_some]
  · simp at h

theorem Solo.Shows.operate (hu : u.Shows s i) {k : Bytes} {operation : Operation}
    (h : Cluster.step cfg s (.operate k operation) = some t) : u.Follows t i := by
  simp only [Cluster.step, Option.ite_none_right_eq_some, Option.some.injEq] at h
  obtain ⟨⟨-, hidle⟩, rfl⟩ := h
  refine hu.after ?_
  rintro rfl
  rw [← hu.node]
  rw [← hu.activity] at hidle
  exact ⟨.operate operation, _, if_pos hidle, Cluster.operate_fst _ _ _ _, hidle⟩

theorem Solo.Shows.applyCommitted (hu : u.Shows s i) {k : Bytes}
    (h : Cluster.step cfg s (.applyCommitted k) = some t) : u.Follows t i := by
  simp only [Cluster.step] at h
  split at h
  · simp at h
  · next hact =>
    rw [← Option.some.inj h]
    refine hu.after ?_
    rintro rfl
    rw [← hu.node, ← hu.activity]
    rw [← hu.activity] at hact
    refine ⟨.applyCommitted, { u with node := u.node.applyCommittedEntries.1 }, ?_, rfl, rfl⟩
    simp only [Solo.step]

/-- A step of the cluster is, at each node, a step of the node on its own, or none. -/
theorem shows_step (hu : u.Shows s i) {a : Cluster.Action} (h : Cluster.step cfg s a = some t) :
    u.Follows t i := by
  cases a with
  | electionTimeout k => exact hu.electionTimeout h
  | sendRequestVote k => exact hu.sendRequestVote h
  | receiveVote k reply => exact hu.receiveVote h
  | loseVote k => exact hu.loseVote h
  | finishElection k => exact hu.finishElection h
  | startHeartbeat k => exact hu.startHeartbeat h
  | sendAppendEntries k => exact hu.sendAppendEntries h
  | receiveAppend k reply => exact hu.receiveAppend h
  | loseAppend k => exact hu.loseAppend h
  | finishHeartbeat k => exact hu.finishHeartbeat h
  | deliver call => exact hu.deliver h
  | operate k operation => exact hu.operate h
  | applyCommitted k => exact hu.applyCommitted h

/-- **A node of the cluster takes the steps of a node on its own.** -/
theorem cluster_solo (cfg : ClusterConfig) (i : Bytes) {as : List Cluster.Action} {t : Cluster}
    (h : (cluster cfg).exec (cluster cfg).init as = some t) :
    ∃ bs u, (solo i (cfg.host i) (cfg.port i) (cfg.peerList i)).exec
      (solo i (cfg.host i) (cfg.port i) (cfg.peerList i)).init bs = some u ∧ u.Shows t i := by
  refine System.reachable_invariant
    (I := fun s : Cluster => ∃ bs u, (solo i (cfg.host i) (cfg.port i) (cfg.peerList i)).exec
      (solo i (cfg.host i) (cfg.port i) (cfg.peerList i)).init bs = some u ∧ u.Shows s i)
    ⟨[], _, rfl, rfl, rfl⟩ ?_ h
  rintro s a t ⟨bs, u, hbs, hu⟩ hst
  rcases shows_step hu hst with hu | ⟨b, u', hb, hu'⟩
  · exact ⟨bs, u, hbs, hu⟩
  · refine ⟨bs ++ [b], u', ?_, hu'⟩
    rw [System.exec_append, hbs, Option.bind_some, System.exec_cons]
    show (Solo.step u b).bind _ = _
    rw [hb]
    rfl

end Cluster
