import RpcFramework.Proto.DistributedRegistry

/-!
# A Raft node

The state of a `RaftNode` and what each of its methods does to it, one method at a
time.  The methods that talk to peers, `startElection` and `heartbeatLoop`, block
on every call; they are cut at their calls into the part up to the next request,
the treatment of one answer, and the part after the last answer.

Terms and indices are integers; only `current_term_++`, which nothing bounds, is
written with the wrap-around of an `int64_t`.

## Main definitions

* `RaftNode` — the node's state.
* `RaftNode.startElection`, `RaftNode.handleVoteReply`, `RaftNode.finishElection`.
* `RaftNode.appendEntriesRequest`, `RaftNode.handleAppendReply`,
  `RaftNode.updateCommitIndex`.
* `RaftNode.handleRequestVote`, `RaftNode.handleAppendEntries`.
* `RaftNode.proposeLogEntry`, `RaftNode.applyCommittedEntries`.
-/

open Rpc

inductive RaftRole where
  | follower
  | candidate
  | leader
  deriving DecidableEq, Repr

/-- A peer's identity and address.  Its `next_index` and `match_index` are never
read: the node keeps vectors of its own. -/
structure RaftPeer where
  nodeId : Bytes
  host : Bytes
  port : ℤ
  deriving DecidableEq, Repr

structure RaftNode where
  nodeId : Bytes
  host : Bytes
  port : ℤ
  peers : List RaftPeer
  role : RaftRole := .follower
  currentTerm : ℤ := 0
  votedFor : Bytes := []
  leaderId : Bytes := []
  log : List LogEntry := []
  commitIndex : ℤ := 0
  lastApplied : ℤ := 0
  nextIndex : List ℤ
  matchIndex : List ℤ
  deriving DecidableEq, Repr

namespace RaftNode

/-- The constructor. -/
def new (nodeId host : Bytes) (port : ℤ) (peers : List RaftPeer) : RaftNode where
  nodeId := nodeId
  host := host
  port := port
  peers := peers
  nextIndex := List.replicate peers.length 1
  matchIndex := List.replicate peers.length 0

/-- The value an `int64_t` holds after an operation whose exact result is `x`. -/
def wrap64 (x : ℤ) : ℤ := (x + 2 ^ 63) % 2 ^ 64 - 2 ^ 63

theorem wrap64_of_lt {x : ℤ} (hlo : -2 ^ 63 ≤ x) (hhi : x < 2 ^ 63) : wrap64 x = x := by
  unfold wrap64
  omega

/-- The number of votes, or of copies of an entry, that decide. -/
def majority (n : RaftNode) : ℕ := (n.peers.length + 1) / 2 + 1

/-- The term of the last entry, zero without entries. -/
def lastLogTerm (log : List LogEntry) : ℤ := log.getLast?.elim 0 LogEntry.term

def getLastLogIndex (n : RaftNode) : ℤ := n.log.length

def getLastLogTerm (n : RaftNode) : ℤ := lastLogTerm n.log

/-! ### Changes of role -/

def becomeLeader (n : RaftNode) : RaftNode :=
  { n with
    role := .leader
    leaderId := n.nodeId
    nextIndex := n.nextIndex.map fun _ => n.getLastLogIndex + 1
    matchIndex := n.matchIndex.map fun _ => 0 }

/-- The vote is cleared whether or not the term changes. -/
def becomeFollower (n : RaftNode) (term : ℤ) (leaderId : Bytes) : RaftNode :=
  { n with role := .follower, currentTerm := term, votedFor := [], leaderId := leaderId }

def becomeCandidate (n : RaftNode) : RaftNode := { n with role := .candidate, leaderId := [] }

/-! ### Elections -/

/-- `startElection` up to the first call: the node votes for itself in the next
term and writes the request that every peer will be sent. -/
def startElection (n : RaftNode) : RaftNode × RequestVoteRequest :=
  let n := n.becomeCandidate
  let n := { n with currentTerm := wrap64 (n.currentTerm + 1), votedFor := n.nodeId }
  (n, { term := n.currentTerm, candidateId := n.nodeId, lastLogIndex := n.getLastLogIndex,
        lastLogTerm := n.getLastLogTerm })

/-- `sendRequestVote` from the answer on: whether a vote was gained. -/
def handleVoteReply (n : RaftNode) (response : RequestVoteResponse) : RaftNode × Bool :=
  if n.currentTerm < response.term then (n.becomeFollower response.term [], false)
  else (n, response.voteGranted)

/-- `startElection` after the last call. -/
def finishElection (n : RaftNode) (votes : ℕ) : RaftNode :=
  if n.majority ≤ votes then n.becomeLeader else n.becomeFollower n.currentTerm []

/-- The candidate's log, of which a vote request has the last term and index, is at
least as up to date as the log of the node that is asked. -/
def logOk (log : List LogEntry) (request : RequestVoteRequest) : Prop :=
  lastLogTerm log < request.lastLogTerm ∨
    request.lastLogTerm = lastLogTerm log ∧ (log.length : ℤ) ≤ request.lastLogIndex

instance (log : List LogEntry) (request : RequestVoteRequest) : Decidable (logOk log request) :=
  inferInstanceAs (Decidable (_ ∨ _))

/-- The node is free to vote for the candidate. -/
def canVote (n : RaftNode) (candidateId : Bytes) : Prop :=
  n.votedFor = [] ∨ n.votedFor = candidateId

instance (n : RaftNode) (candidateId : Bytes) : Decidable (n.canVote candidateId) :=
  inferInstanceAs (Decidable (_ ∨ _))

/-- A request of a later term makes the node a follower of that term. -/
def observeTerm (n : RaftNode) (term : ℤ) : RaftNode :=
  if n.currentTerm < term then n.becomeFollower term [] else n

def handleRequestVote (n : RaftNode) (request : RequestVoteRequest) :
    RaftNode × RequestVoteResponse :=
  if request.term < n.currentTerm then (n, { term := n.currentTerm })
  else
    let n' := n.observeTerm request.term
    if n'.canVote request.candidateId ∧ logOk n'.log request then
      -- the answer carries the term from before the request was looked at
      ({ n' with votedFor := request.candidateId }, { term := n.currentTerm, voteGranted := true })
    else (n', { term := n.currentTerm })

/-! ### Replication -/

/-- The request `heartbeatLoop` builds for the `i`-th peer.  The subscripts it uses
are out of bounds if `next_index_[i]` is missing or below one. -/
def appendEntriesRequest (n : RaftNode) (i : ℕ) : Option AppendEntriesRequest :=
  (n.nextIndex[i]?).bind fun next =>
    if next < 1 then none
    else
      let prevLogIndex := next - 1
      some
        { term := n.currentTerm
          leaderId := n.nodeId
          prevLogIndex := prevLogIndex
          -- past the end of the log there is no entry, and the term sent is zero
          prevLogTerm :=
            if 0 < prevLogIndex ∧ prevLogIndex ≤ n.log.length then
              (n.log[(prevLogIndex - 1).toNat]?).elim 0 LogEntry.term
            else 0
          entries := n.log.drop prevLogIndex.toNat
          leaderCommit := n.commitIndex }

/-- The consistency check: the log has an entry of the right term where the
request's entries attach. -/
def logConsistent (log : List LogEntry) (request : AppendEntriesRequest) : Prop :=
  0 < request.prevLogIndex →
    request.prevLogIndex ≤ log.length ∧
      (log[(request.prevLogIndex - 1).toNat]?).map LogEntry.term = some request.prevLogTerm

instance (log : List LogEntry) (request : AppendEntriesRequest) :
    Decidable (logConsistent log request) :=
  inferInstanceAs (Decidable (_ → _))

/-- The log with the request's entries in it: everything behind the point where
they attach is erased first, unless there are none.  Erasing from before the
beginning is undefined. -/
def replaceEntries (log : List LogEntry) (request : AppendEntriesRequest) :
    Option (List LogEntry) :=
  if request.entries = [] then some log
  else if request.prevLogIndex < 0 then none
  else some (log.take request.prevLogIndex.toNat ++ request.entries)

def handleAppendEntries (n : RaftNode) (request : AppendEntriesRequest) :
    Option (RaftNode × AppendEntriesResponse) :=
  if request.term < n.currentTerm then some (n, { term := n.currentTerm })
  else
    -- here the source tests for a term that is not earlier, which always holds
    let n' := n.becomeFollower request.term request.leaderId
    if ¬ logConsistent n'.log request then some (n', { term := n.currentTerm })
    else
      (replaceEntries n'.log request).map fun log =>
        ({ n' with
            log := log
            commitIndex :=
              if n'.commitIndex < request.leaderCommit then min request.leaderCommit log.length
              else n'.commitIndex },
          { term := n.currentTerm, success := true, matchIndex := log.length })

/-- How many nodes have the entry at `index`, by the leader's own account. -/
def replicaCount (n : RaftNode) (index : ℤ) : ℕ :=
  n.matchIndex.countP (fun m => decide (index ≤ m)) + 1

/-- The loop of `updateCommitIndex` from `index` downwards: the commit index it
ends with.  That is never below zero, so the loop does not get past index zero. -/
def commitLoop (n : RaftNode) : ℕ → ℤ
  | 0 => n.commitIndex
  | index + 1 =>
      if (index + 1 : ℤ) ≤ n.commitIndex then n.commitIndex
      -- entries of earlier terms are passed over, whoever has them
      else if (n.log[index]?).map LogEntry.term ≠ some n.currentTerm then n.commitLoop index
      else if n.majority ≤ n.replicaCount (index + 1) then index + 1
      else n.commitLoop index

def updateCommitIndex (n : RaftNode) : RaftNode :=
  if n.role = .leader then { n with commitIndex := n.commitLoop n.log.length } else n

/-- `sendAppendEntries` from the answer on. -/
def handleAppendReply (n : RaftNode) (peer : RaftPeer) (response : AppendEntriesResponse) :
    RaftNode :=
  if n.currentTerm < response.term then n.becomeFollower response.term []
  else
    match n.peers.findIdx? (fun p => p.nodeId == peer.nodeId) with
    | none => n
    | some i =>
        if response.success then
          updateCommitIndex
            { n with
              nextIndex := n.nextIndex.set i (response.matchIndex + 1)
              matchIndex := n.matchIndex.set i response.matchIndex }
        -- refused: one entry more is sent next time
        else if 1 < n.nextIndex.getD i 0 then
          { n with nextIndex := n.nextIndex.set i (n.nextIndex.getD i 0 - 1) }
        else n

/-! ### Proposals and the state machine -/

/-- The entry a leader would append next. -/
def proposal (n : RaftNode) (operation data : Bytes) : LogEntry where
  term := n.currentTerm
  index := n.getLastLogIndex + 1
  operation := operation
  data := data

def proposeLogEntry (n : RaftNode) (operation data : Bytes) : RaftNode × Bool :=
  if n.role = .leader then ({ n with log := n.log ++ [n.proposal operation data] }, true)
  else (n, false)

/-- `applyCommittedEntries`, at most `fuel` entries of it: the node afterwards and
what it passed to the state machine, with the index. -/
def applyLoop : ℕ → RaftNode → RaftNode × List (ℤ × LogEntry)
  | 0, n => (n, [])
  | fuel + 1, n =>
      if n.lastApplied < n.commitIndex then
        match n.log[n.lastApplied.toNat]? with
        | some entry =>
            let rest := applyLoop fuel { n with lastApplied := n.lastApplied + 1 }
            (rest.1, (n.lastApplied + 1, entry) :: rest.2)
        -- the log ends before the commit index
        | none => (n, [])
      else (n, [])

/-- Each round brings `last_applied_` one closer to `commit_index_`. -/
def applyCommittedEntries (n : RaftNode) : RaftNode × List (ℤ × LogEntry) :=
  applyLoop (n.commitIndex - n.lastApplied).toNat n

/-! ### What each method does -/

section Specs

variable (n : RaftNode)

theorem log_observeTerm (term : ℤ) : (n.observeTerm term).log = n.log := by
  unfold observeTerm
  split <;> rfl

theorem currentTerm_observeTerm {term : ℤ} (h : n.currentTerm ≤ term) :
    (n.observeTerm term).currentTerm = term := by
  unfold observeTerm
  split
  · rfl
  · exact le_antisymm h (not_lt.mp ‹_›)

/-- Reading the term of a request changes role, vote and leader, or nothing. -/
theorem observeTerm_eq_or (term : ℤ) :
    n.observeTerm term = n ∨
      n.currentTerm < term ∧ n.observeTerm term = n.becomeFollower term [] := by
  unfold observeTerm
  split
  · exact Or.inr ⟨‹_›, rfl⟩
  · exact Or.inl rfl

/-- **A vote request** is refused as outdated, refused after its term was taken over, or
granted. -/
theorem handleRequestVote_cases (request : RequestVoteRequest) :
    request.term < n.currentTerm ∧
        n.handleRequestVote request = (n, { term := n.currentTerm }) ∨
      n.currentTerm ≤ request.term ∧
        n.handleRequestVote request = (n.observeTerm request.term, { term := n.currentTerm }) ∨
      n.currentTerm ≤ request.term ∧ (n.observeTerm request.term).canVote request.candidateId ∧
        logOk n.log request ∧
        n.handleRequestVote request =
          ({ n.observeTerm request.term with votedFor := request.candidateId },
            { term := n.currentTerm, voteGranted := true }) := by
  by_cases hold : request.term < n.currentTerm
  · exact Or.inl ⟨hold, by rw [handleRequestVote, if_pos hold]⟩
  · refine Or.inr ?_
    rw [handleRequestVote, if_neg hold]
    by_cases hvote : (n.observeTerm request.term).canVote request.candidateId ∧
        logOk (n.observeTerm request.term).log request
    · have hlog : logOk n.log request := by
        rw [← n.log_observeTerm request.term]
        exact hvote.2
      refine Or.inr ⟨not_lt.mp hold, hvote.1, hlog, ?_⟩
      simp only [if_pos hvote]
    · refine Or.inl ⟨not_lt.mp hold, ?_⟩
      simp only [if_neg hvote]

/-- A handled append request is refused as outdated, refused after its term was taken
over because its entries do not attach, or accepted. -/
theorem handleAppendEntries_cases {n n' : RaftNode} {request : AppendEntriesRequest}
    {response : AppendEntriesResponse}
    (h : n.handleAppendEntries request = some (n', response)) :
    request.term < n.currentTerm ∧ n' = n ∧ response = { term := n.currentTerm } ∨
      n.currentTerm ≤ request.term ∧ ¬ logConsistent n.log request ∧
        n' = n.becomeFollower request.term request.leaderId ∧
        response = { term := n.currentTerm } ∨
      n.currentTerm ≤ request.term ∧ logConsistent n.log request ∧
        ∃ log, replaceEntries n.log request = some log ∧
          n' = { n.becomeFollower request.term request.leaderId with
            log := log
            commitIndex :=
              if n.commitIndex < request.leaderCommit then min request.leaderCommit log.length
              else n.commitIndex } ∧
          response = { term := n.currentTerm, success := true, matchIndex := log.length } := by
  unfold handleAppendEntries at h
  split at h
  · next hold =>
    simp only [Option.some.injEq, Prod.mk.injEq] at h
    exact Or.inl ⟨hold, h.1.symm, h.2.symm⟩
  · next hold =>
    refine Or.inr ?_
    by_cases hlog : logConsistent n.log request
    · refine Or.inr ⟨not_lt.mp hold, hlog, ?_⟩
      have hlog' : ¬ ¬ logConsistent (n.becomeFollower request.term request.leaderId).log request :=
        not_not.mpr hlog
      rw [if_neg hlog', Option.map_eq_some_iff] at h
      obtain ⟨log, hreplace, heq⟩ := h
      rw [Prod.mk.injEq] at heq
      exact ⟨log, hreplace, heq.1.symm, heq.2.symm⟩
    · refine Or.inl ⟨not_lt.mp hold, hlog, ?_⟩
      have hlog' : ¬ logConsistent (n.becomeFollower request.term request.leaderId).log request :=
        hlog
      rw [if_pos hlog', Option.some.injEq, Prod.mk.injEq] at h
      exact ⟨h.1.symm, h.2.symm⟩

/-- The answer to a vote request makes the node step down, or leaves it alone. -/
theorem handleVoteReply_cases (response : RequestVoteResponse) :
    n.currentTerm < response.term ∧
        n.handleVoteReply response = (n.becomeFollower response.term [], false) ∨
      n.handleVoteReply response = (n, response.voteGranted) := by
  unfold handleVoteReply
  split
  · exact Or.inl ⟨‹_›, rfl⟩
  · exact Or.inr rfl

/-- The loop of `updateCommitIndex` ends with the commit index it found, or with the index
of an entry of the leader's term that a majority has. -/
theorem commitLoop_cases (bound : ℕ) :
    n.commitLoop bound = n.commitIndex ∨
      ∃ index, index < bound ∧ n.commitLoop bound = (index + 1 : ℕ) ∧
        n.commitIndex < (index + 1 : ℕ) ∧
        (n.log[index]?).map LogEntry.term = some n.currentTerm ∧
        n.majority ≤ n.replicaCount (index + 1 : ℕ) := by
  induction bound with
  | zero => exact Or.inl rfl
  | succ bound ih =>
    have hlift : n.commitLoop bound = n.commitIndex ∨
        ∃ index, index < bound + 1 ∧ n.commitLoop bound = (index + 1 : ℕ) ∧
          n.commitIndex < (index + 1 : ℕ) ∧
          (n.log[index]?).map LogEntry.term = some n.currentTerm ∧
          n.majority ≤ n.replicaCount (index + 1 : ℕ) := by
      rcases ih with ih | ⟨index, hlt, h⟩
      · exact Or.inl ih
      · exact Or.inr ⟨index, by omega, h⟩
    rw [commitLoop]
    split
    · exact Or.inl rfl
    · next hcommit =>
      split
      · exact hlift
      · next hterm =>
        split
        · next hmajority =>
          have hlt : n.commitIndex < (bound + 1 : ℕ) := by
            push_cast
            exact not_le.mp hcommit
          refine Or.inr ⟨bound, Nat.lt_succ_self bound, by push_cast; rfl, hlt,
            not_not.mp hterm, ?_⟩
          push_cast
          exact hmajority
        · exact hlift

/-- The answer to an append request makes the node step down; or it moves the leader's
account of one peer, and the commit index with it. -/
theorem handleAppendReply_cases (peer : RaftPeer) (response : AppendEntriesResponse) :
    n.currentTerm < response.term ∧
        n.handleAppendReply peer response = n.becomeFollower response.term [] ∨
      response.term ≤ n.currentTerm ∧
        ((∃ i next, (1 ≤ n.nextIndex.getD i 0 → 1 ≤ next) ∧
            n.handleAppendReply peer response = { n with nextIndex := n.nextIndex.set i next }) ∨
          response.success = true ∧
            ∃ i, n.peers.findIdx? (fun p => p.nodeId == peer.nodeId) = some i ∧
            n.handleAppendReply peer response =
              updateCommitIndex
                { n with
                  nextIndex := n.nextIndex.set i (response.matchIndex + 1)
                  matchIndex := n.matchIndex.set i response.matchIndex }) := by
  unfold handleAppendReply
  split
  · exact Or.inl ⟨‹_›, rfl⟩
  · next hterm =>
    refine Or.inr ⟨not_lt.mp hterm, ?_⟩
    cases hfind : n.peers.findIdx? (fun p => p.nodeId == peer.nodeId) with
    | none =>
      refine Or.inl ⟨n.nextIndex.length, 1, fun _ => le_refl 1, ?_⟩
      simp only [List.set_eq_of_length_le (le_refl _)]
    | some i =>
      by_cases hsuccess : response.success = true
      · exact Or.inr ⟨hsuccess, i, rfl, by simp only [hsuccess, if_true]⟩
      · refine Or.inl ?_
        simp only [hsuccess]
        by_cases hnext : 1 < n.nextIndex.getD i 0
        · exact ⟨i, n.nextIndex.getD i 0 - 1, fun _ => by omega, by simp only [hnext, if_true]; rfl⟩
        · refine ⟨n.nextIndex.length, 1, fun _ => le_refl 1, ?_⟩
          simp only [hnext, List.set_eq_of_length_le (le_refl _)]
          rfl

/-- Moving the commit index changes nothing else. -/
theorem updateCommitIndex_node :
    ∃ index, n.updateCommitIndex = { n with commitIndex := index } := by
  unfold updateCommitIndex
  split
  · exact ⟨_, rfl⟩
  · exact ⟨n.commitIndex, rfl⟩

/-- No answer to an append request makes a node leader. -/
theorem role_handleAppendReply (peer : RaftPeer) (response : AppendEntriesResponse)
    (hrole : (n.handleAppendReply peer response).role = .leader) : n.role = .leader := by
  rcases n.handleAppendReply_cases peer response with
    ⟨-, heq⟩ | ⟨-, ⟨i, next, -, heq⟩ | ⟨-, i, -, heq⟩⟩
  · rw [heq] at hrole
    simp [becomeFollower] at hrole
  · rw [heq] at hrole
    exact hrole
  · obtain ⟨index, hindex⟩ := updateCommitIndex_node
      { n with
        nextIndex := n.nextIndex.set i (response.matchIndex + 1)
        matchIndex := n.matchIndex.set i response.matchIndex }
    rw [heq, hindex] at hrole
    exact hrole

/-- **Applying committed entries** passes the entries behind `last_applied_` to the state
machine in order, none of them past `commit_index_`. -/
theorem applyLoop_spec (fuel : ℕ) {n : RaftNode} (h0 : 0 ≤ n.lastApplied)
    (hle : n.lastApplied ≤ n.commitIndex) :
    ∃ applied, (applyLoop fuel n).1 = { n with lastApplied := applied } ∧
      n.lastApplied ≤ applied ∧ applied ≤ n.commitIndex ∧
      ∀ p ∈ (applyLoop fuel n).2, n.lastApplied < p.1 ∧ p.1 ≤ applied ∧
        n.log[(p.1 - 1).toNat]? = some p.2 := by
  induction fuel generalizing n with
  | zero => exact ⟨n.lastApplied, rfl, le_refl _, hle, by simp [applyLoop]⟩
  | succ fuel ih =>
    rw [applyLoop]
    split
    · next hlt =>
      cases hentry : n.log[n.lastApplied.toNat]? with
      | none => exact ⟨n.lastApplied, rfl, le_refl _, hle, by simp⟩
      | some entry =>
        obtain ⟨applied, hnode, hlo, hhi, hentries⟩ :=
          ih (n := { n with lastApplied := n.lastApplied + 1 }) (by simp; omega) (by simp; omega)
        simp only at hlo hhi hentries
        refine ⟨applied, hnode, by omega, hhi, fun p hp => ?_⟩
        rcases List.mem_cons.mp hp with rfl | hp
        · refine ⟨by simp, hlo, ?_⟩
          simpa using hentry
        · obtain ⟨hlt', hle', hget⟩ := hentries p hp
          exact ⟨by omega, hle', hget⟩
    · exact ⟨n.lastApplied, rfl, le_refl _, hle, by simp⟩

theorem applyCommittedEntries_spec {n : RaftNode} (h0 : 0 ≤ n.lastApplied)
    (hle : n.lastApplied ≤ n.commitIndex) :
    ∃ applied, n.applyCommittedEntries.1 = { n with lastApplied := applied } ∧
      n.lastApplied ≤ applied ∧ applied ≤ n.commitIndex ∧
      ∀ p ∈ n.applyCommittedEntries.2, n.lastApplied < p.1 ∧ p.1 ≤ applied ∧
        n.log[(p.1 - 1).toNat]? = some p.2 :=
  applyLoop_spec _ h0 hle

/-- Applying entries changes `last_applied_` alone, whatever the state. -/
theorem applyLoop_node (fuel : ℕ) (n : RaftNode) :
    ∃ applied, (applyLoop fuel n).1 = { n with lastApplied := applied } := by
  induction fuel generalizing n with
  | zero => exact ⟨n.lastApplied, rfl⟩
  | succ fuel ih =>
    rw [applyLoop]
    split
    · cases hentry : n.log[n.lastApplied.toNat]? with
      | none => exact ⟨n.lastApplied, rfl⟩
      | some entry => exact ih { n with lastApplied := n.lastApplied + 1 }
    · exact ⟨n.lastApplied, rfl⟩

theorem applyCommittedEntries_node (n : RaftNode) :
    ∃ applied, n.applyCommittedEntries.1 = { n with lastApplied := applied } :=
  applyLoop_node _ n

end Specs

end RaftNode
