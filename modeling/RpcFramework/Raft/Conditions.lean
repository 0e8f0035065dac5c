import RpcFramework.Raft.Cluster

/-!
# Where the protocol is left

The node follows the Raft protocol but for a few branches.  Each condition below keeps a
step out of one of them; all of them look at the state before the step.

* `becomeFollower` clears the vote even when the term stays, so a node can vote twice in a
  term: `VoteRemembered`.
* An answer of a later term does not end an election, whose votes then make the node a
  leader of that term: `WinsItsTerm`.
* Nor does it end a heartbeat round, which goes on in the later term: `SendsAsLeader`.
* An append request erases everything behind the point where it attaches, also what it
  does not contradict: `ErasesConflicts`.
* A follower reports the length of its log as what matches the leader's: `MatchesLog`.
* The term wraps around: `TermFits`.

## Main definitions

* `VotesOnce`, `FollowsRaft` — the conditions elections need, and all of them.
-/

open Rpc

/-- The event is a vote of the node in the term for somebody but the candidate. -/
def Event.otherVote (voter : Bytes) (term : ℤ) (candidate : Bytes) : Event → Bool
  | .voted v T c _ => v = voter ∧ T = term ∧ c ≠ candidate
  | _ => false

namespace Cluster

variable (s : Cluster)

/-- An election does not take the term past the largest `int64_t`. -/
def TermFits : Action → Prop
  | .electionTimeout i => (s.nodes i).currentTerm < 2 ^ 63 - 1
  | _ => True

/-- A node whose vote was cleared within a term is not asked for a second vote in it, by
a candidate whose log would get it. -/
def VoteRemembered : Action → Prop
  | .deliver call =>
      match s.requests[call]? with
      | some ⟨_, dst, .requestVote request⟩ =>
          request.term = (s.nodes dst).currentTerm → (s.nodes dst).votedFor = [] →
            RaftNode.logOk (s.nodes dst).log request →
              ∀ e ∈ s.history, Event.otherVote dst request.term request.candidateId e = false
      | _ => True
  | _ => True

/-- An election that is won is won in the term it was held for. -/
def WinsItsTerm : Action → Prop
  | .finishElection i =>
      match s.activity i with
      | .electing request _ votes =>
          (s.nodes i).majority ≤ votes → (s.nodes i).currentTerm = request.term
      | _ => True
  | _ => True

/-- Only a leader builds an append request. -/
def SendsAsLeader : Action → Prop
  | .sendAppendEntries i => (s.nodes i).role = .leader
  | _ => True

/-- An append request that is accepted, and whose entries the log already has, does not
find further entries behind them. -/
def ErasesConflicts : Action → Prop
  | .deliver call =>
      match s.requests[call]? with
      | some ⟨_, dst, .appendEntries request⟩ =>
          (s.nodes dst).currentTerm ≤ request.term →
            RaftNode.logConsistent (s.nodes dst).log request → request.entries ≠ [] →
              request.entries <+: (s.nodes dst).log.drop request.prevLogIndex.toNat →
                (s.nodes dst).log.drop request.prevLogIndex.toNat = request.entries
      | _ => True
  | _ => True

/-- A follower's report of success does not go past the end of the leader's log. -/
def MatchesLog : Action → Prop
  | .receiveAppend i reply =>
      match s.replies[reply]? with
      | some ⟨_, .appendEntries response⟩ =>
          response.success = true → response.matchIndex ≤ (s.nodes i).getLastLogIndex
      | _ => True
  | _ => True

/-- What elections need: a vote is cast once, and counts for the term it was cast in. -/
def VotesOnce (a : Action) : Prop := s.TermFits a ∧ s.VoteRemembered a ∧ s.WinsItsTerm a

/-- All conditions together. -/
def FollowsRaft (a : Action) : Prop :=
  s.VotesOnce a ∧ s.SendsAsLeader a ∧ s.ErasesConflicts a ∧ s.MatchesLog a

instance (a : Action) : Decidable (s.TermFits a) := by
  unfold TermFits
  split <;> infer_instance

instance (a : Action) : Decidable (s.VoteRemembered a) := by
  unfold VoteRemembered
  split
  · split <;> infer_instance
  · infer_instance

instance (a : Action) : Decidable (s.WinsItsTerm a) := by
  unfold WinsItsTerm
  split
  · split <;> infer_instance
  · infer_instance

instance (a : Action) : Decidable (s.SendsAsLeader a) := by
  unfold SendsAsLeader
  split <;> infer_instance

instance (a : Action) : Decidable (s.ErasesConflicts a) := by
  unfold ErasesConflicts
  split
  · split <;> infer_instance
  · infer_instance

instance (a : Action) : Decidable (s.MatchesLog a) := by
  unfold MatchesLog
  split
  · split <;> infer_instance
  · infer_instance

instance (a : Action) : Decidable (s.VotesOnce a) := inferInstanceAs (Decidable (_ ∧ _))

instance (a : Action) : Decidable (s.FollowsRaft a) := inferInstanceAs (Decidable (_ ∧ _))

end Cluster
