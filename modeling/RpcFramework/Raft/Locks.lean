import RpcFramework.Lib.LockTrace
import RpcFramework.Raft.Node

/-!
# The mutexes of a node

Every routine of a node, with what it does to `state_mutex_` and `log_mutex_`.  Neither
mutex may be locked by the thread that holds it.  The two loops hold `state_mutex_`
through all of their calls, and `heartbeatLoop` holds `log_mutex_` during each of them as
well; but an answer of a later term is treated under `state_mutex_`, and the answer that
moves the commit index under `log_mutex_`.

A thread that locks a mutex it holds goes no further, so what its trace says from there on
does not matter.  Nor does it matter to the traces what a routine reads out of bounds.

## Main definitions

* `Routine`, `RaftNode.locks` — the routines and their traces.
* `RaftNode.NoSelfDeadlock` — the routine locks no mutex it holds.
* `RaftNode.Spared` — the answers that keep it from doing so.

## Main results

* `noSelfDeadlock_iff` — **when a routine waits for itself.**
-/

open Rpc

inductive NodeMutex where
  | state
  | log
  deriving DecidableEq, Repr

/-- What a call comes to: an answer or none.  An answer that is all defaults is an empty
frame, which counts as none. -/
abbrev VoteOutcome := Option { response : RequestVoteResponse // response ≠ {} }

@[inherit_doc VoteOutcome]
abbrev AppendOutcome := Option { response : AppendEntriesResponse // response ≠ {} }

/-- A routine of one of the node's threads.  The two loops come with the outcome of the call
to the peer of each position, the log applier with the number of times it is woken. -/
inductive Routine where
  | electionTimer (outcomes : ℕ → VoteOutcome)
  | heartbeat (outcomes : ℕ → AppendOutcome)
  | logApplier (wakeups : ℕ)
  | handleRequestVote (request : RequestVoteRequest)
  | handleAppendEntries (request : AppendEntriesRequest)
  | proposeLogEntry
  | getClusterStatus

namespace RaftNode

/-! ### The traces -/

section Traces

/-- `getLastLogIndex`, `getLastLogTerm` and `appendLogEntry`. -/
def logAccess : List (LockOp NodeMutex) := guarded .log []

variable (n : RaftNode)

/-- `sendRequestVote`. -/
def sendRequestVoteLocks : VoteOutcome → List (LockOp NodeMutex)
  | none => []
  | some response => if n.currentTerm < response.1.term then guarded .state [] else []

/-- The node after `sendRequestVote`, and whether a vote was gained. -/
def sendRequestVote : VoteOutcome → RaftNode × Bool
  | none => (n, false)
  | some response => n.handleVoteReply response.1

/-- The loop of `startElection` over its peers, the first of which is the `k`-th: the node
afterwards, the votes, and the trace. -/
def voteLoop (outcomes : ℕ → VoteOutcome) :
    ℕ → List RaftPeer → RaftNode → ℕ → RaftNode × ℕ × List (LockOp NodeMutex)
  | _, [], n, votes => (n, votes, [])
  | k, _ :: peers, n, votes =>
      let (n', granted) := n.sendRequestVote (outcomes k)
      let (last, total, ops) :=
        voteLoop outcomes (k + 1) peers n' (if granted then votes + 1 else votes)
      (last, total, n.sendRequestVoteLocks (outcomes k) ++ ops)

/-- `startElection`: it reads the log twice for its request, and once more if it wins. -/
def startElectionLocks (outcomes : ℕ → VoteOutcome) : List (LockOp NodeMutex) :=
  let n := n.startElection.1
  let (last, votes, ops) := voteLoop outcomes 0 n.peers n 1
  logAccess ++ (logAccess ++ (ops ++ if last.majority ≤ votes then logAccess else []))

/-- `updateCommitIndex`. -/
def updateCommitIndexLocks : List (LockOp NodeMutex) :=
  if n.role = .leader then logAccess else []

/-- `sendAppendEntries`. -/
def sendAppendEntriesLocks (peer : RaftPeer) : AppendOutcome → List (LockOp NodeMutex)
  | none => []
  | some response =>
      if n.currentTerm < response.1.term then guarded .state []
      else if (n.peers.findIdx? (fun p => p.nodeId == peer.nodeId)).isSome ∧ response.1.success then
        n.updateCommitIndexLocks
      else []

/-- The node after `sendAppendEntries`. -/
def sendAppendEntries (peer : RaftPeer) : AppendOutcome → RaftNode
  | none => n
  | some response => n.handleAppendReply peer response.1

/-- The loop of a heartbeat round over the peers, the first of which is the `k`-th. -/
def appendLoop (outcomes : ℕ → AppendOutcome) :
    ℕ → List RaftPeer → RaftNode → List (LockOp NodeMutex)
  | _, [], _ => []
  | k, peer :: peers, n =>
      guarded .log (n.sendAppendEntriesLocks peer (outcomes k)) ++
        appendLoop outcomes (k + 1) peers (n.sendAppendEntries peer (outcomes k))

/-- Waiting for a condition: the mutex is unlocked, and locked again on waking. -/
def waitLocks : ℕ → List (LockOp NodeMutex)
  | 0 => []
  | wakeups + 1 => .unlock .log :: .lock .log :: waitLocks wakeups

/-- What a routine does to the mutexes. -/
def locks : Routine → List (LockOp NodeMutex)
  | .electionTimer outcomes =>
      guarded .state (if n.role ≠ .leader then n.startElectionLocks outcomes else [])
  | .heartbeat outcomes =>
      guarded .state (if n.role = .leader then appendLoop outcomes 0 n.peers n else [])
  | .logApplier wakeups => guarded .log (waitLocks wakeups)
  | .handleRequestVote request =>
      guarded .state
        (if request.term < n.currentTerm then []
        else if (n.observeTerm request.term).canVote request.candidateId then
          logAccess ++ logAccess
        else [])
  | .handleAppendEntries request =>
      guarded .state (if request.term < n.currentTerm then [] else guarded .log [])
  | .proposeLogEntry => guarded .state (if n.role ≠ .leader then [] else logAccess ++ logAccess)
  | .getClusterStatus => guarded .state []

/-- The routine locks no mutex that it holds. -/
def NoSelfDeadlock (r : Routine) : Prop := RelockFree [] (n.locks r)

instance (r : Routine) : Decidable (n.NoSelfDeadlock r) :=
  inferInstanceAs (Decidable (RelockFree _ _))

/-- No call is answered in a later term, nor, in a heartbeat round, with success. -/
def Spared : Routine → Prop
  | .electionTimer outcomes =>
      n.role = .leader ∨ ∀ k < n.peers.length, ∀ response, outcomes k = some response →
        response.1.term ≤ wrap64 (n.currentTerm + 1)
  | .heartbeat outcomes =>
      n.role ≠ .leader ∨ ∀ k < n.peers.length, ∀ response, outcomes k = some response →
        response.1.term ≤ n.currentTerm ∧ response.1.success = false
  | _ => True

end Traces

/-! ### The traces give back what they take -/

section Balance

theorem balanced_logAccess : LockBalanced logAccess := balanced_guarded _ balanced_nil

theorem relockFree_logAccess {held : List NodeMutex} :
    RelockFree held logAccess ↔ .log ∉ held := by
  rw [logAccess, balanced_nil.relockFree_guarded_iff, and_iff_left]
  exact trivial

theorem balanced_sendRequestVoteLocks (n : RaftNode) (outcome : VoteOutcome) :
    LockBalanced (n.sendRequestVoteLocks outcome) := by
  cases outcome with
  | none => exact balanced_nil
  | some response => exact balanced_ite (balanced_guarded _ balanced_nil) balanced_nil

theorem balanced_voteLoop (outcomes : ℕ → VoteOutcome) (peers : List RaftPeer) (k : ℕ)
    (n : RaftNode) (votes : ℕ) : LockBalanced (voteLoop outcomes k peers n votes).2.2 := by
  induction peers generalizing k n votes with
  | nil => exact balanced_nil
  | cons peer peers ih => exact balanced_append (balanced_sendRequestVoteLocks n _) (ih _ _ _)

theorem balanced_startElectionLocks (n : RaftNode) (outcomes : ℕ → VoteOutcome) :
    LockBalanced (n.startElectionLocks outcomes) := by
  refine balanced_append balanced_logAccess (balanced_append balanced_logAccess ?_)
  refine balanced_append (balanced_voteLoop outcomes _ _ _ _) ?_
  exact balanced_ite balanced_logAccess balanced_nil

theorem balanced_sendAppendEntriesLocks (n : RaftNode) (peer : RaftPeer)
    (outcome : AppendOutcome) : LockBalanced (n.sendAppendEntriesLocks peer outcome) := by
  cases outcome with
  | none => exact balanced_nil
  | some response =>
    refine balanced_ite (balanced_guarded _ balanced_nil) (balanced_ite ?_ balanced_nil)
    exact balanced_ite balanced_logAccess balanced_nil

theorem balanced_appendLoop (outcomes : ℕ → AppendOutcome) (peers : List RaftPeer) (k : ℕ)
    (n : RaftNode) : LockBalanced (appendLoop outcomes k peers n) := by
  induction peers generalizing k n with
  | nil => exact balanced_nil
  | cons peer peers ih =>
    exact balanced_append (balanced_guarded _ (balanced_sendAppendEntriesLocks n peer _)) (ih _ _)

end Balance

/-! ### When a routine waits for itself -/

section Relock

variable (n : RaftNode)

/-- What is answered to the peers from the `k`-th on: that of the first, and of the rest. -/
theorem forall_outcome_cons {α : Type*} {outcomes : ℕ → Option α} {P : α → Prop} {k m : ℕ} :
    (∀ j < m + 1, ∀ response, outcomes (k + j) = some response → P response) ↔
      (∀ response, outcomes k = some response → P response) ∧
        ∀ j < m, ∀ response, outcomes (k + 1 + j) = some response → P response := by
  constructor
  · intro h
    refine ⟨h 0 (Nat.succ_pos m), ?_⟩
    intro j hj response hresponse
    refine h (j + 1) (by omega) response ?_
    rw [← hresponse]
    congr 1
    omega
  · rintro ⟨hfirst, hrest⟩ j hj response hresponse
    cases j with
    | zero => exact hfirst response hresponse
    | succ j =>
      refine hrest j (by omega) response ?_
      rw [← hresponse]
      congr 1
      omega

/-- One call of an election, under `state_mutex_`. -/
theorem relockFree_sendRequestVoteLocks (outcome : VoteOutcome) :
    RelockFree [.state] (n.sendRequestVoteLocks outcome) ↔
      ∀ response, outcome = some response → response.1.term ≤ n.currentTerm := by
  cases outcome with
  | none => simp [sendRequestVoteLocks, RelockFree]
  | some response =>
    by_cases hterm : n.currentTerm < response.1.term
    · simp [sendRequestVoteLocks, hterm, guarded, RelockFree]
    · simp [sendRequestVoteLocks, hterm, RelockFree, not_lt.mp hterm]

/-- A call that is not answered in a later term leaves the node as it is. -/
theorem sendRequestVote_fst {outcome : VoteOutcome}
    (h : ∀ response, outcome = some response → response.1.term ≤ n.currentTerm) :
    (n.sendRequestVote outcome).1 = n := by
  cases outcome with
  | none => rfl
  | some response =>
    rcases n.handleVoteReply_cases response.1 with ⟨hlt, -⟩ | heq
    · exact absurd hlt (not_lt.mpr (h response rfl))
    · rw [sendRequestVote, heq]

/-- The calls of an election: the first answer of a later term is the one that matters. -/
theorem relockFree_voteLoop (outcomes : ℕ → VoteOutcome) (peers : List RaftPeer) (k : ℕ)
    (votes : ℕ) :
    RelockFree [.state] (voteLoop outcomes k peers n votes).2.2 ↔
      ∀ j < peers.length, ∀ response, outcomes (k + j) = some response →
        response.1.term ≤ n.currentTerm := by
  induction peers generalizing k votes with
  | nil => simp [voteLoop, RelockFree]
  | cons peer peers ih =>
    have hloop : RelockFree [.state] (voteLoop outcomes k (peer :: peers) n votes).2.2 ↔
        RelockFree [.state] (n.sendRequestVoteLocks (outcomes k)) ∧
          RelockFree [.state] (voteLoop outcomes (k + 1) peers (n.sendRequestVote (outcomes k)).1
            (if (n.sendRequestVote (outcomes k)).2 then votes + 1 else votes)).2.2 :=
      (balanced_sendRequestVoteLocks n (outcomes k)).relockFree_append_iff
    -- up to the first answer of a later term the node is the one that stood for election
    rw [hloop, relockFree_sendRequestVoteLocks, List.length_cons, forall_outcome_cons]
    refine and_congr_right fun hfirst => ?_
    rw [n.sendRequestVote_fst hfirst]
    exact ih _ _

/-- An election, under `state_mutex_`. -/
theorem relockFree_startElectionLocks (outcomes : ℕ → VoteOutcome) :
    RelockFree [.state] (n.startElectionLocks outcomes) ↔
      ∀ k < n.peers.length, ∀ response, outcomes k = some response →
        response.1.term ≤ wrap64 (n.currentTerm + 1) := by
  have hlog : RelockFree [.state] logAccess := relockFree_logAccess.mpr (by decide)
  have hwin : ∀ c : Prop, [Decidable c] → RelockFree [.state] (if c then logAccess else []) := by
    intro c _
    split
    · exact hlog
    · exact trivial
  have hloop := n.startElection.1.relockFree_voteLoop outcomes n.startElection.1.peers 0 1
  unfold startElectionLocks
  rw [balanced_logAccess.relockFree_append_iff, balanced_logAccess.relockFree_append_iff,
    (balanced_voteLoop outcomes _ _ _ _).relockFree_append_iff, and_iff_right hlog,
    and_iff_right hlog, and_iff_left (hwin _), hloop]
  simp only [Nat.zero_add]
  rfl

/-- A peer is found in the list it comes from. -/
theorem isSome_findIdx_peer {peer : RaftPeer} (h : peer ∈ n.peers) :
    (n.peers.findIdx? (fun p => p.nodeId == peer.nodeId)).isSome = true := by
  rw [List.findIdx?_isSome, List.any_eq_true]
  exact ⟨peer, h, beq_self_eq_true _⟩

/-- One call of a leader's round, under both mutexes. -/
theorem relockFree_sendAppendEntriesLocks {peer : RaftPeer} (hrole : n.role = .leader)
    (hpeer : peer ∈ n.peers) (outcome : AppendOutcome) :
    RelockFree [.log, .state] (n.sendAppendEntriesLocks peer outcome) ↔
      ∀ response, outcome = some response →
        response.1.term ≤ n.currentTerm ∧ response.1.success = false := by
  have hfind := n.isSome_findIdx_peer hpeer
  cases outcome with
  | none => simp [sendAppendEntriesLocks, RelockFree]
  | some response =>
    by_cases hterm : n.currentTerm < response.1.term
    · simp [sendAppendEntriesLocks, hterm, guarded, RelockFree]
    · by_cases hsuccess : response.1.success = true
      · simp [sendAppendEntriesLocks, updateCommitIndexLocks, hterm, hfind, hsuccess, hrole,
          logAccess, guarded, RelockFree]
      · simp [sendAppendEntriesLocks, hterm, hsuccess, RelockFree, not_lt.mp hterm]

/-- A call that is refused in no later term leaves the node its office. -/
theorem sendAppendEntries_office (peer : RaftPeer) {outcome : AppendOutcome}
    (h : ∀ response, outcome = some response →
      response.1.term ≤ n.currentTerm ∧ response.1.success = false) :
    ∃ nextIndex, n.sendAppendEntries peer outcome = { n with nextIndex := nextIndex } := by
  cases outcome with
  | none => exact ⟨n.nextIndex, rfl⟩
  | some response =>
    obtain ⟨hterm, hsuccess⟩ := h response rfl
    rcases n.handleAppendReply_cases peer response.1 with
      ⟨hlt, -⟩ | ⟨-, ⟨i, next, -, heq⟩ | ⟨htrue, -⟩⟩
    · exact absurd hlt (not_lt.mpr hterm)
    · exact ⟨n.nextIndex.set i next, heq⟩
    · rw [hsuccess] at htrue
      exact absurd htrue (by decide)

/-- The calls of a leader's round. -/
theorem relockFree_appendLoop (outcomes : ℕ → AppendOutcome) (peers : List RaftPeer) (k : ℕ)
    (hrole : n.role = .leader) (hpeers : ∀ peer ∈ peers, peer ∈ n.peers) :
    RelockFree [.state] (appendLoop outcomes k peers n) ↔
      ∀ j < peers.length, ∀ response, outcomes (k + j) = some response →
        response.1.term ≤ n.currentTerm ∧ response.1.success = false := by
  induction peers generalizing k n with
  | nil => simp [appendLoop, RelockFree]
  | cons peer peers ih =>
    -- a refusal in no later term leaves the office, so the next call is made as this one was
    have hcall := balanced_sendAppendEntriesLocks n peer (outcomes k)
    have hfree : NodeMutex.log ∉ [NodeMutex.state] := by decide
    rw [appendLoop, (balanced_guarded _ hcall).relockFree_append_iff,
      hcall.relockFree_guarded_iff, and_iff_right hfree,
      n.relockFree_sendAppendEntriesLocks hrole (hpeers peer List.mem_cons_self),
      List.length_cons, forall_outcome_cons]
    refine and_congr_right fun hfirst => ?_
    obtain ⟨nextIndex, hnode⟩ := n.sendAppendEntries_office peer hfirst
    rw [hnode]
    exact ih { n with nextIndex := nextIndex } _ hrole
      fun p hp => hpeers p (List.mem_cons_of_mem peer hp)

/-- A routine starts with no mutex held. -/
theorem relockFree_guarded_state {ops : List (LockOp NodeMutex)} (h : LockBalanced ops) :
    RelockFree [] (guarded .state ops) ↔ RelockFree [.state] ops := by
  rw [h.relockFree_guarded_iff, and_iff_right List.not_mem_nil]

/-- A thread that waits has the mutex again when it goes on. -/
theorem relockFree_waitLocks (wakeups : ℕ) (ops : List (LockOp NodeMutex)) :
    RelockFree [.log] (waitLocks wakeups ++ ops) ↔ RelockFree [.log] ops := by
  induction wakeups with
  | zero => rfl
  | succ wakeups ih =>
    show _ ∉ [] ∧ RelockFree [.log] (waitLocks wakeups ++ ops) ↔ _
    rw [ih, and_iff_right List.not_mem_nil]

end Relock

/-- **When a routine waits for itself**: an election does once a vote request is answered in
a later term, a leader's round once an append request is answered in a later term or with
success; nothing else does. -/
theorem noSelfDeadlock_iff (n : RaftNode) (r : Routine) : n.NoSelfDeadlock r ↔ n.Spared r := by
  have hlog : RelockFree [.state] logAccess := relockFree_logAccess.mpr (by decide)
  have htwice : RelockFree [.state] (logAccess ++ logAccess) :=
    balanced_logAccess.relockFree_append_iff.mpr ⟨hlog, hlog⟩
  have hbalanced : LockBalanced (logAccess ++ logAccess) :=
    balanced_append balanced_logAccess balanced_logAccess
  unfold NoSelfDeadlock
  cases r with
  | electionTimer outcomes =>
    have hround := balanced_ite (c := n.role ≠ .leader) (n.balanced_startElectionLocks outcomes)
      balanced_nil
    refine (relockFree_guarded_state hround).trans ?_
    by_cases hrole : n.role = .leader
    · rw [if_neg (not_not.mpr hrole)]
      exact iff_of_true trivial (Or.inl hrole)
    · rw [if_pos hrole, relockFree_startElectionLocks, Spared, or_iff_right hrole]
  | heartbeat outcomes =>
    have hround := balanced_ite (c := n.role = .leader) (balanced_appendLoop outcomes n.peers 0 n)
      balanced_nil
    refine (relockFree_guarded_state hround).trans ?_
    by_cases hrole : n.role = .leader
    · rw [if_pos hrole, n.relockFree_appendLoop outcomes n.peers 0 hrole fun p hp => hp, Spared,
        or_iff_right (not_not.mpr hrole)]
      simp only [Nat.zero_add]
    · rw [if_neg hrole]
      exact iff_of_true trivial (Or.inl hrole)
  | logApplier wakeups =>
    refine iff_of_true ⟨List.not_mem_nil, ?_⟩ trivial
    exact (relockFree_waitLocks wakeups _).mpr trivial
  | handleRequestVote request =>
    refine iff_of_true ?_ trivial
    refine (relockFree_guarded_state
      (balanced_ite balanced_nil (balanced_ite hbalanced balanced_nil))).mpr ?_
    split
    · exact trivial
    · split
      · exact htwice
      · exact trivial
  | handleAppendEntries request =>
    refine iff_of_true ?_ trivial
    refine (relockFree_guarded_state
      (balanced_ite balanced_nil (balanced_guarded _ balanced_nil))).mpr ?_
    split
    · exact trivial
    · exact hlog
  | proposeLogEntry =>
    refine iff_of_true ?_ trivial
    refine (relockFree_guarded_state (balanced_ite balanced_nil hbalanced)).mpr ?_
    split
    · exact trivial
    · exact htwice
  | getClusterStatus =>
    exact iff_of_true ((relockFree_guarded_state balanced_nil).mpr trivial) trivial

/-- A leader whose first peer answers with success. -/
theorem leader_locksLogTwice : ¬ ∀ (n : RaftNode) (r : Routine), n.NoSelfDeadlock r := by
  intro hall
  let leader : RaftNode :=
    { RaftNode.new (utf8 "A") (utf8 "h") 1 [⟨utf8 "B", utf8 "h", 2⟩] with
      role := .leader, currentTerm := 1 }
  have hrelock := hall leader (.heartbeat fun _ => some ⟨{ term := 1, success := true }, by decide⟩)
  exact absurd hrelock (by decide +kernel)

end RaftNode
