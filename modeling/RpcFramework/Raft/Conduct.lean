import RpcFramework.Raft.Solo

/-!
# What a node says in a term

A node that votes twice in a term, or that sends append requests in a term without being
its leader, misleads the others however correct they are.  Both happen.  `becomeFollower`
clears the vote even when the term stays; and a heartbeat round tests the role once and
goes on with the next peer when an answer has ended the office.

Each condition below keeps a node out of one of these branches, and all of them look at
the state before the step.

## Main definitions

* `OneVotePerTerm`, `SpeaksAsLeader` — what others rely on.
* `Solo.VotesOnce`, `Solo.StepsDownLast` — the conditions.
* `Onward` — what a node may do to its term and its vote without casting one.
* `VoteKept`, `InOffice` — the invariants.

## Main results

* `solo_oneVotePerTerm`, `solo_speaksAsLeader` — **under its condition, each holds in every
  run, whatever the network brings.**
-/

open Rpc

/-- All votes a node casts in a term name one candidate. -/
def OneVotePerTerm (S : System Solo Solo.Action) : Prop :=
  ∀ (as : List Solo.Action) (t : Solo), S.exec S.init as = some t →
    ∀ v ∈ t.votes, ∀ w ∈ t.votes, v.1 = w.1 → v.2 = w.2

/-- A node that sends an append request is then the leader of the request's term. -/
def SpeaksAsLeader (S : System Solo Solo.Action) : Prop :=
  ∀ (as : List Solo.Action) (t : Solo), S.exec S.init as = some t →
    ∀ p ∈ t.sent, p.2.role = .leader ∧ p.2.currentTerm = p.1.term

namespace Solo

variable (s : Solo)

/-- An election does not take the term past the largest `int64_t`. -/
def TermFits : Action → Prop
  | .electionTimeout => s.node.currentTerm < 2 ^ 63 - 1
  | _ => True

/-- A node whose vote was cleared within a term is not asked for a second vote in it, by
a candidate whose log would get it. -/
def VoteRemembered : Action → Prop
  | .requestVote request =>
      request.term = s.node.currentTerm → s.node.votedFor = [] →
        RaftNode.logOk s.node.log request →
          ∀ v ∈ s.votes, v.1 = request.term → v.2 = request.candidateId
  | _ => True

/-- What one vote in a term needs. -/
def VotesOnce (a : Action) : Prop := s.TermFits a ∧ s.VoteRemembered a

/-- An answer of a later term comes from the last peer of a heartbeat round. -/
def StepsDownLast : Action → Prop
  | .receiveAppend response =>
      match s.activity with
      | .awaitingAppend next _ =>
          s.node.currentTerm < response.term → s.node.peers.length ≤ next + 1
      | _ => True
  | _ => True

instance (a : Action) : Decidable (s.TermFits a) := by
  unfold TermFits
  split <;> infer_instance

instance (a : Action) : Decidable (s.VoteRemembered a) := by
  unfold VoteRemembered
  split <;> infer_instance

instance (a : Action) : Decidable (s.VotesOnce a) := inferInstanceAs (Decidable (_ ∧ _))

instance (a : Action) : Decidable (s.StepsDownLast a) := by
  unfold StepsDownLast
  split
  · split <;> infer_instance
  · infer_instance

end Solo

/-! ### Term and vote -/

/-- A node that casts no vote stays in its term with the vote it has, or has none, or goes
on to a later term without one. -/
structure Onward (n n' : RaftNode) : Prop where
  term_le : n.currentTerm ≤ n'.currentTerm
  vote : n'.votedFor ≠ [] → n'.currentTerm = n.currentTerm ∧ n'.votedFor = n.votedFor

namespace Onward

variable {n n' : RaftNode}

theorem of_eq (hterm : n'.currentTerm = n.currentTerm) (hvote : n'.votedFor = n.votedFor) :
    Onward n n' where
  term_le := hterm.ge
  vote _ := ⟨hterm, hvote⟩

theorem becomeFollower {term : ℤ} (h : n.currentTerm ≤ term) (leaderId : Bytes) :
    Onward n (n.becomeFollower term leaderId) where
  term_le := h
  vote hne := absurd rfl hne

theorem observeTerm (n : RaftNode) (term : ℤ) : Onward n (n.observeTerm term) := by
  rcases n.observeTerm_eq_or term with heq | ⟨hlt, heq⟩
  · rw [heq]
    exact of_eq rfl rfl
  · rw [heq]
    exact becomeFollower (le_of_lt hlt) []

theorem handleVoteReply (n : RaftNode) (response : RequestVoteResponse) :
    Onward n (n.handleVoteReply response).1 := by
  rcases n.handleVoteReply_cases response with ⟨hlt, heq⟩ | heq
  · rw [heq]
    exact becomeFollower (le_of_lt hlt) []
  · rw [heq]
    exact of_eq rfl rfl

theorem finishElection (n : RaftNode) (votes : ℕ) : Onward n (n.finishElection votes) := by
  unfold RaftNode.finishElection
  split
  · exact of_eq rfl rfl
  · exact becomeFollower (le_refl _) []

theorem handleAppendReply (n : RaftNode) (peer : RaftPeer) (response : AppendEntriesResponse) :
    Onward n (n.handleAppendReply peer response) := by
  rcases n.handleAppendReply_cases peer response with
    ⟨hlt, heq⟩ | ⟨-, ⟨i, next, -, heq⟩ | ⟨-, i, -, heq⟩⟩
  · rw [heq]
    exact becomeFollower (le_of_lt hlt) []
  · rw [heq]
    exact of_eq rfl rfl
  · rw [heq]
    obtain ⟨index, hindex⟩ := RaftNode.updateCommitIndex_node
      { n with
        nextIndex := n.nextIndex.set i (response.matchIndex + 1)
        matchIndex := n.matchIndex.set i response.matchIndex }
    rw [hindex]
    exact of_eq rfl rfl

theorem handleAppendEntries {request : AppendEntriesRequest} {response : AppendEntriesResponse}
    (h : n.handleAppendEntries request = some (n', response)) : Onward n n' := by
  rcases RaftNode.handleAppendEntries_cases h with
    ⟨-, rfl, -⟩ | ⟨hterm, -, rfl, -⟩ | ⟨hterm, -, log, -, rfl, -⟩
  · exact of_eq rfl rfl
  · exact becomeFollower hterm request.leaderId
  · exact ⟨hterm, fun hne => absurd rfl hne⟩

theorem operate (i : Bytes) (n : RaftNode) (operation : Operation) :
    Onward n (Cluster.operate i n operation).1 := by
  rcases Cluster.operate_cases i n operation with heq | ⟨-, entry, acknowledged, -, -, -, heq⟩
  · rw [heq]
    exact of_eq rfl rfl
  · rw [heq]
    exact of_eq rfl rfl

theorem applyCommittedEntries (n : RaftNode) : Onward n n.applyCommittedEntries.1 := by
  obtain ⟨applied, hnode⟩ := n.applyCommittedEntries_node
  rw [hnode]
  exact of_eq rfl rfl

end Onward

/-! ### One vote in a term -/

/-- The votes cast are of terms up to the present one; the vote the node knows of is its
vote in the present term; and the votes of a term agree. -/
structure VoteKept (s : Solo) : Prop where
  term_nonneg : 0 ≤ s.node.currentTerm
  votes_le : ∀ v ∈ s.votes, v.1 ≤ s.node.currentTerm
  votedFor : s.node.votedFor ≠ [] → (s.node.currentTerm, s.node.votedFor) ∈ s.votes
  once : ∀ v ∈ s.votes, ∀ w ∈ s.votes, v.1 = w.1 → v.2 = w.2

section Votes

variable {s t : Solo}

/-- Without a vote there is little to keep. -/
theorem VoteKept.onward (hs : VoteKept s) (hnode : Onward s.node t.node)
    (hvotes : t.votes = s.votes) : VoteKept t where
  term_nonneg := le_trans hs.term_nonneg hnode.term_le
  votes_le v hv := by
    rw [hvotes] at hv
    exact le_trans (hs.votes_le v hv) hnode.term_le
  votedFor hne := by
    obtain ⟨hterm, hvote⟩ := hnode.vote hne
    rw [hvote] at hne
    rw [hterm, hvote, hvotes]
    exact hs.votedFor hne
  once := by
    rw [hvotes]
    exact hs.once

/-- A vote that agrees with what was voted before in its term may be cast. -/
theorem VoteKept.cast (hs : VoteKept s) (hterm : s.node.currentTerm ≤ t.node.currentTerm)
    (hfree : ∀ v ∈ s.votes, v.1 = t.node.currentTerm → v.2 = t.node.votedFor)
    (hvotes : t.votes = (t.node.currentTerm, t.node.votedFor) :: s.votes) : VoteKept t where
  term_nonneg := le_trans hs.term_nonneg hterm
  votes_le v hv := by
    rw [hvotes] at hv
    rcases List.mem_cons.mp hv with rfl | hold
    · exact le_refl _
    · exact le_trans (hs.votes_le v hold) hterm
  votedFor _ := by
    rw [hvotes]
    exact List.mem_cons_self
  once := by
    intro v hv w hw heq
    rw [hvotes] at hv hw
    rcases List.mem_cons.mp hv with rfl | hv
    · rcases List.mem_cons.mp hw with rfl | hw
      · rfl
      · exact (hfree w hw heq.symm).symm
    · rcases List.mem_cons.mp hw with rfl | hw
      · exact hfree v hv heq
      · exact hs.once v hv w hw heq

/-- The vote a node gives itself is the first of its term. -/
theorem VoteKept.startElection (hs : VoteKept s) (hfits : s.node.currentTerm < 2 ^ 63 - 1)
    (hnode : t.node = s.node.startElection.1)
    (hvotes : t.votes = (s.node.startElection.2.term, s.node.nodeId) :: s.votes) :
    VoteKept t := by
  have hnonneg := hs.term_nonneg
  have hterm : t.node.currentTerm = s.node.currentTerm + 1 := by
    rw [hnode]
    show RaftNode.wrap64 (s.node.currentTerm + 1) = s.node.currentTerm + 1
    exact RaftNode.wrap64_of_lt (by omega) (by omega)
  refine hs.cast (by omega) ?_ ?_
  · intro v hv heq
    have hle := hs.votes_le v hv
    omega
  · rw [hvotes, hnode]
    rfl

/-- A vote that is granted is the first of its term, repeats the one the node knows of, or
is one the condition admits. -/
theorem VoteKept.requestVote (hs : VoteKept s) {request : RequestVoteRequest} {n : RaftNode}
    {response : RequestVoteResponse} (hguard : s.VoteRemembered (.requestVote request))
    (hhandle : s.node.handleRequestVote request = (n, response)) (hnode : t.node = n)
    (hvotes : t.votes = Solo.grant request response ++ s.votes) : VoteKept t := by
  rcases s.node.handleRequestVote_cases request with
    ⟨-, hcase⟩ | ⟨-, hcase⟩ | ⟨hterm, hcan, hok, hcase⟩
  · obtain ⟨rfl, rfl⟩ := Prod.mk.inj (hcase.symm.trans hhandle)
    exact hs.onward (hnode ▸ .of_eq rfl rfl) hvotes
  · obtain ⟨rfl, rfl⟩ := Prod.mk.inj (hcase.symm.trans hhandle)
    exact hs.onward (hnode ▸ .observeTerm _ _) hvotes
  · obtain ⟨rfl, rfl⟩ := Prod.mk.inj (hcase.symm.trans hhandle)
    have hcur : t.node.currentTerm = request.term := by
      rw [hnode]
      exact s.node.currentTerm_observeTerm hterm
    have hvote : t.node.votedFor = request.candidateId := by rw [hnode]
    refine hs.cast (by omega) ?_ ?_
    · intro v hv heq
      rw [hvote]
      rw [hcur] at heq
      rcases s.node.observeTerm_eq_or request.term with hsame | ⟨hlt, -⟩
      · -- the term is the node's own already
        have hown : request.term = s.node.currentTerm := by
          rw [← s.node.currentTerm_observeTerm hterm, hsame]
        rw [hsame] at hcan
        by_cases hnone : s.node.votedFor = []
        · exact hguard hown hnone hok v hv heq
        · have hknown := hs.once v hv _ (hs.votedFor hnone) (heq.trans hown)
          exact hknown.trans (hcan.resolve_left hnone)
      · have hle := hs.votes_le v hv
        omega
    · rw [hvotes, hcur, hvote]
      rfl

/-- **One step.** -/
theorem voteKept_step {a : Solo.Action} (hs : VoteKept s) (hguard : s.VotesOnce a)
    (hstep : Solo.Step s a t) : VoteKept t := by
  obtain ⟨hfits, hremembered⟩ := hguard
  cases hstep with
  | electionTimeout hidle hrole => exact hs.startElection hfits rfl rfl
  | requestVote request n response hidle hhandle =>
    exact hs.requestVote hremembered hhandle rfl rfl
  | receiveVote request remaining votes call response hact hsome =>
    exact hs.onward (.handleVoteReply _ response) rfl
  | finishElection request votes hact => exact hs.onward (.finishElection _ votes) rfl
  | receiveAppend next call peer response hact hpeer hsome =>
    exact hs.onward (.handleAppendReply _ peer response) rfl
  | appendEntries request n response hidle hhandle =>
    exact hs.onward (.handleAppendEntries hhandle) rfl
  | operate operation hidle => exact hs.onward (.operate _ _ operation) rfl
  | applyCommitted hact => exact hs.onward (.applyCommittedEntries _) rfl
  | sendRequestVote | loseVote | startHeartbeat | sendAppendEntries | loseAppend
  | finishHeartbeat => exact hs.onward (.of_eq rfl rfl) rfl

end Votes

/-- **One vote in a term**, whatever the network brings. -/
theorem solo_oneVotePerTerm (nodeId host : Bytes) (port : ℤ) (peers : List RaftPeer) :
    OneVotePerTerm ((solo nodeId host port peers).restrict Solo.VotesOnce) := by
  intro as t ht
  have hkept : VoteKept t := by
    refine System.reachable_invariant ?_ ?_ ht
    · exact ⟨le_refl 0, by simp [solo], by simp [solo, RaftNode.new], by simp [solo]⟩
    · intro s a t hs hst
      obtain ⟨hguard, hnext⟩ := System.step_restrict.mp hst
      exact voteKept_step hs hguard (Solo.step_cases hnext)
  exact hkept.once

/-- `A`, with two peers. -/
def sampleSolo : System Solo Solo.Action :=
  solo (utf8 "A") (utf8 "h") 1 [⟨utf8 "B", utf8 "h", 2⟩, ⟨utf8 "C", utf8 "h", 3⟩]

/-- `A` votes for `B` in term 1, hears from `B` as its leader, is asked by `B` once more, and
votes for `C` in term 2. -/
def sampleVotes : List Solo.Action :=
  [.requestVote { term := 1, candidateId := utf8 "B" },
    .appendEntries { term := 1, leaderId := utf8 "B" },
    .requestVote { term := 1, candidateId := utf8 "B" },
    .requestVote { term := 2, candidateId := utf8 "C" }]

theorem solo_oneVotePerTerm_sample :
    ∃ t, (sampleSolo.restrict Solo.VotesOnce).exec sampleSolo.init sampleVotes = some t ∧
      (2, utf8 "C") ∈ t.votes ∧ (1, utf8 "B") ∈ t.votes ∧
      ∀ candidate, (1, candidate) ∈ t.votes → candidate = utf8 "B" := by
  obtain ⟨t, ht, hvotes⟩ := (sampleSolo.restrict Solo.VotesOnce).exists_exec_of_any
    sampleSolo.init sampleVotes
    (fun t => decide ((2, utf8 "C") ∈ t.votes) && decide ((1, utf8 "B") ∈ t.votes))
    (by decide +kernel)
  rw [Bool.and_eq_true, decide_eq_true_eq, decide_eq_true_eq] at hvotes
  obtain ⟨hsecond, hfirst⟩ := hvotes
  exact ⟨t, ht, hsecond, hfirst, fun candidate hmem =>
    solo_oneVotePerTerm _ _ _ _ _ t ht _ hmem _ hfirst rfl⟩

/-- `A` votes for `B` in term 1, hears from `B` as its leader, and votes for `C`. -/
def sampleTwoVotes : List Solo.Action :=
  [.requestVote { term := 1, candidateId := utf8 "B" },
    .appendEntries { term := 1, leaderId := utf8 "B" },
    .requestVote { term := 1, candidateId := utf8 "C" }]

theorem sampleTwoVotes_differ : ¬ OneVotePerTerm sampleSolo := by
  intro honce
  obtain ⟨t, ht, hvotes⟩ := sampleSolo.exists_exec_of_any sampleSolo.init sampleTwoVotes
    (fun t => decide (t.votes = [(1, utf8 "C"), (1, utf8 "B")])) (by decide +kernel)
  rw [decide_eq_true_eq] at hvotes
  have hsame := honce _ t ht (1, utf8 "C") (by simp [hvotes]) (1, utf8 "B") (by simp [hvotes]) rfl
  exact absurd hsame (by decide)

/-! ### The leader's voice -/

/-- While there are peers left in a heartbeat round, the node is leader. -/
structure InOffice (s : Solo) : Prop where
  heartbeating : ∀ next, s.activity = .heartbeating next → next < s.node.peers.length →
    s.node.role = .leader
  awaiting : ∀ next call, s.activity = .awaitingAppend next call → s.node.role = .leader
  sent : ∀ p ∈ s.sent, p.2.role = .leader ∧ p.2.currentTerm = p.1.term

section Office

variable {s t : Solo}

/-- The request is one of the node's term. -/
theorem RaftNode.term_appendEntriesRequest {n : RaftNode} {i : ℕ} {request : AppendEntriesRequest}
    (h : n.appendEntriesRequest i = some request) : request.term = n.currentTerm := by
  unfold appendEntriesRequest at h
  obtain ⟨next, -, h⟩ := Option.bind_eq_some_iff.mp h
  split at h
  · exact absurd h (by simp)
  · rw [← Option.some.inj h]

/-- An answer of no later term leaves a node in its office. -/
theorem RaftNode.handleAppendReply_office (n : RaftNode) (peer : RaftPeer)
    (response : AppendEntriesResponse) :
    (n.handleAppendReply peer response).peers = n.peers ∧
      (response.term ≤ n.currentTerm → (n.handleAppendReply peer response).role = n.role) := by
  rcases n.handleAppendReply_cases peer response with
    ⟨hlt, heq⟩ | ⟨-, ⟨i, next, -, heq⟩ | ⟨-, i, -, heq⟩⟩
  · rw [heq]
    exact ⟨rfl, fun hle => absurd hlt (not_lt.mpr hle)⟩
  · rw [heq]
    exact ⟨rfl, fun _ => rfl⟩
  · rw [heq]
    obtain ⟨index, hindex⟩ := updateCommitIndex_node
      { n with
        nextIndex := n.nextIndex.set i (response.matchIndex + 1)
        matchIndex := n.matchIndex.set i response.matchIndex }
    rw [hindex]
    exact ⟨rfl, fun _ => rfl⟩

/-- Outside a heartbeat round there is nothing to keep but the record. -/
theorem InOffice.of_quiet (hs : InOffice s) (hsent : t.sent = s.sent)
    (hround : ∀ next, t.activity ≠ .heartbeating next)
    (hcall : ∀ next call, t.activity ≠ .awaitingAppend next call) : InOffice t where
  heartbeating next hact := absurd hact (hround next)
  awaiting next call hact := absurd hact (hcall next call)
  sent := by
    rw [hsent]
    exact hs.sent

/-- A node that handles a request does so outside a round. -/
theorem InOffice.of_idle (hs : InOffice s) (hsent : t.sent = s.sent)
    (hidle : t.activity = .idle) : InOffice t :=
  hs.of_quiet hsent (by simp [hidle]) (by simp [hidle])

/-- **One step.** -/
theorem inOffice_step {a : Solo.Action} (hs : InOffice s) (hguard : s.StepsDownLast a)
    (hstep : Solo.Step s a t) : InOffice t := by
  cases hstep with
  | startHeartbeat hidle hrole =>
    exact ⟨fun _ _ _ => hrole, fun _ _ _ => hrole, hs.sent⟩
  | sendAppendEntries call next peer request hact hpeer hrequest =>
    obtain ⟨hlt, -⟩ := List.getElem?_eq_some_iff.mp hpeer
    have hrole := hs.heartbeating next hact hlt
    refine ⟨fun _ _ _ => hrole, fun _ _ _ => hrole, ?_⟩
    intro p hp
    rcases List.mem_cons.mp hp with rfl | hold
    · exact ⟨hrole, (RaftNode.term_appendEntriesRequest hrequest).symm⟩
    · exact hs.sent p hold
  | receiveAppend next call peer response hact hpeer hsome =>
    have hrole := hs.awaiting next call hact
    obtain ⟨hpeers, hstays⟩ := s.node.handleAppendReply_office peer response
    refine ⟨?_, by simp, hs.sent⟩
    intro next' heq hlt
    obtain rfl := Activity.heartbeating.inj heq
    -- an answer of a later term was the last of the round
    simp only [Solo.StepsDownLast, hact] at hguard
    by_cases hterm : s.node.currentTerm < response.term
    · have hlast := hguard hterm
      simp only [hpeers] at hlt
      omega
    · exact (hstays (not_lt.mp hterm)).trans hrole
  | loseAppend next call hact =>
    have hrole := hs.awaiting next call hact
    exact ⟨fun _ _ _ => hrole, by simp, hs.sent⟩
  | applyCommitted hact =>
    obtain ⟨applied, hnode⟩ := s.node.applyCommittedEntries_node
    refine ⟨?_, fun next call heq => absurd heq (hact next call), hs.sent⟩
    intro next heq hlt
    simp only [hnode] at hlt ⊢
    exact hs.heartbeating next heq hlt
  | requestVote request n response hidle hhandle => exact hs.of_idle rfl hidle
  | appendEntries request n response hidle hhandle => exact hs.of_idle rfl hidle
  | operate operation hidle => exact hs.of_idle rfl hidle
  | finishElection | finishHeartbeat => exact hs.of_idle rfl rfl
  | electionTimeout | sendRequestVote | receiveVote | loseVote =>
    exact hs.of_quiet rfl (by simp) (by simp)

end Office

/-- **Only the leader of a term sends append requests in it**, whatever the network brings. -/
theorem solo_speaksAsLeader (nodeId host : Bytes) (port : ℤ) (peers : List RaftPeer) :
    SpeaksAsLeader ((solo nodeId host port peers).restrict Solo.StepsDownLast) := by
  intro as t ht
  have hoffice : InOffice t := by
    refine System.reachable_invariant ?_ ?_ ht
    · exact ⟨by simp [solo], by simp [solo], by simp [solo]⟩
    · intro s a t hs hst
      obtain ⟨hguard, hnext⟩ := System.step_restrict.mp hst
      exact inOffice_step hs hguard (Solo.step_cases hnext)
  exact hoffice.sent

/-- `A` leads term 1, sends both peers a request, and steps down at the answer of the second. -/
def sampleRound : List Solo.Action :=
  [.electionTimeout, .sendRequestVote 0, .receiveVote { voteGranted := true },
    .sendRequestVote 1, .loseVote, .finishElection, .startHeartbeat, .sendAppendEntries 2,
    .receiveAppend { term := 1, success := true }, .sendAppendEntries 3,
    .receiveAppend { term := 2 }, .finishHeartbeat]

theorem solo_speaksAsLeader_sample :
    ∃ t, (sampleSolo.restrict Solo.StepsDownLast).exec sampleSolo.init sampleRound = some t ∧
      (t.node.role = .follower ∧ t.node.currentTerm = 2) ∧ t.sent.length = 2 ∧
      ∀ p ∈ t.sent, p.2.role = .leader ∧ p.2.currentTerm = p.1.term := by
  obtain ⟨t, ht, htest⟩ := (sampleSolo.restrict Solo.StepsDownLast).exists_exec_of_any
    sampleSolo.init sampleRound
    (fun t => (t.node.role = .follower ∧ t.node.currentTerm = 2) ∧ t.sent.length = 2)
    (by decide +kernel)
  obtain ⟨hrole, hsent⟩ := of_decide_eq_true htest
  exact ⟨t, ht, hrole, hsent, solo_speaksAsLeader _ _ _ _ _ t ht⟩

/-- `A` leads term 1; in its first round `B` answers in term 2, and `C` is sent a request. -/
def sampleDeposed : List Solo.Action :=
  [.electionTimeout, .sendRequestVote 0, .receiveVote { voteGranted := true },
    .sendRequestVote 1, .loseVote, .finishElection, .startHeartbeat, .sendAppendEntries 2,
    .receiveAppend { term := 2 }, .sendAppendEntries 3]

theorem sampleDeposed_notLeader : ¬ SpeaksAsLeader sampleSolo := by
  intro hspeaks
  obtain ⟨t, ht, hsent⟩ := sampleSolo.exists_exec_of_any sampleSolo.init sampleDeposed
    (fun t => t.sent.any fun p => decide (p.2.role = .follower ∧ p.1.term = 2))
    (by decide +kernel)
  obtain ⟨p, hp, htest⟩ := List.any_eq_true.mp hsent
  obtain ⟨hrole, -⟩ := of_decide_eq_true htest
  exact absurd ((hspeaks _ t ht p hp).1.symm.trans hrole) (by decide)
