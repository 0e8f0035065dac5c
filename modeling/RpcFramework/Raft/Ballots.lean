import RpcFramework.Lib.Majority
import RpcFramework.Raft.Conditions
import RpcFramework.Raft.Invariant

/-!
# Ballots

What a node knows about the votes it has cast, what a candidate knows about the votes it
has gained, and which terms a node has led.  None of it needs more than that terms do not
wrap around; that a node votes once in a term is a matter of its own.

## Main definitions

* `Voted`, `Granted` — a vote that was cast.
* `Voter` — what holds of a node's term, vote and role.
* `Poll` — what an election in progress stands on.
* `ballots` — the invariant.

## Main results

* `ballots_after`, `ballots_exec` — **the invariant holds along every run.**
-/

open Rpc

/-- `v` voted for `c` in the term. -/
def Voted (h : List Event) (v : Bytes) (term : ℤ) (c : Bytes) : Prop :=
  ∃ log, .voted v term c log ∈ h

/-- `v` cast the vote the request asks for, with a log that the candidate's is up to date
with. -/
def Granted (h : List Event) (v : Bytes) (request : RequestVoteRequest) : Prop :=
  ∃ log, .voted v request.term request.candidateId log ∈ h ∧ RaftNode.logOk log request

/-- What node `i` knows about itself is what was written down. -/
structure Voter (cfg : ClusterConfig) (h : List Event) (i : Bytes) (n : RaftNode) : Prop where
  nodeId : n.nodeId = i
  peers : n.peers = cfg.peerList i
  term_nonneg : 0 ≤ n.currentTerm
  voted_le : ∀ T c, Voted h i T c → T ≤ n.currentTerm
  elected_mem : ∀ T log, .elected i T log ∈ h → i ∈ cfg.members
  elected_bounds : ∀ T log, .elected i T log ∈ h → 0 < T ∧ T ≤ n.currentTerm
  votedFor : n.votedFor ≠ [] → Voted h i n.currentTerm n.votedFor
  leader : n.role = .leader → ∃ log, .elected i n.currentTerm log ∈ h

/-- The election of node `i` for which `voters` have voted so far, and in which `pending`
are still to be asked. -/
structure Poll (cfg : ClusterConfig) (h : List Event) (i : Bytes) (n : RaftNode)
    (request : RequestVoteRequest) (voters : Finset Bytes) (pending : List RaftPeer) :
    Prop where
  mem : i ∈ cfg.members
  candidate : request.candidateId = i
  term_pos : 0 < request.term
  term_le : request.term ≤ n.currentTerm
  /-- The candidate has not led the term before. -/
  fresh : ∀ T log, .elected i T log ∈ h → T < request.term
  lastLogIndex : request.lastLogIndex = n.log.length
  lastLogTerm : request.lastLogTerm = RaftNode.lastLogTerm n.log
  granted : ∀ v ∈ voters, v ∈ cfg.members ∧ Granted h v request
  nodup : (pending.map RaftPeer.nodeId).Nodup
  pending : ∀ p ∈ pending, p.nodeId ∈ cfg.members ∧ p.nodeId ∉ voters

/-- What a node that is busy with an election stands on. -/
def Polling (cfg : ClusterConfig) (r : Record) (i : Bytes) (n : RaftNode) : Activity → Prop
  | .electing request remaining votes =>
      ∃ voters, voters.card = votes ∧ Poll cfg r.history i n request voters remaining
  | .awaitingVote request remaining votes call =>
      ∃ voters peer, voters.card = votes ∧
        Poll cfg r.history i n request voters (peer :: remaining) ∧
        r.requests[call]? = some ⟨i, peer.nodeId, .requestVote request⟩
  | _ => True

/-- A granted vote in the network was cast. -/
def VoteReply (r : Record) (rep : Reply) : Prop :=
  ∀ response, rep.body = .requestVote response → response.voteGranted = true →
    ∃ src dst request, r.requests[rep.call]? = some ⟨src, dst, .requestVote request⟩ ∧
      Granted r.history dst request

/-- The invariant. -/
def ballots (cfg : ClusterConfig) : Parts where
  node r i n a := Voter cfg r.history i n ∧ Polling cfg r i n a
  request _ _ := True
  reply := VoteReply
  event _ _ := True

/-! ### Growth of the history -/

/-- The event is a vote or an election. -/
def Event.ballot : Event → Bool
  | .voted .. => true
  | .elected .. => true
  | _ => false

section Growth

variable {cfg : ClusterConfig} {events h : List Event} {i v c : Bytes} {T : ℤ} {n : RaftNode}
  {request : RequestVoteRequest} {voters : Finset Bytes} {pending : List RaftPeer}

theorem Voted.append (hv : Voted h v T c) : Voted (events ++ h) v T c := by
  obtain ⟨log, hlog⟩ := hv
  exact ⟨log, List.mem_append_right events hlog⟩

theorem Granted.append (hv : Granted h v request) : Granted (events ++ h) v request := by
  obtain ⟨log, hlog, hok⟩ := hv
  exact ⟨log, List.mem_append_right events hlog, hok⟩

/-- The events say nothing of node `i`'s votes and elections. -/
def Quiet (i : Bytes) (events : List Event) : Prop :=
  ∀ ev ∈ events, ev.node = i → ev.ballot = false

theorem Quiet.voted (hq : Quiet i events) (hv : Voted (events ++ h) i T c) : Voted h i T c := by
  obtain ⟨log, hlog⟩ := hv
  rcases List.mem_append.mp hlog with hnew | hold
  · exact absurd (hq _ hnew rfl) (by simp [Event.ballot])
  · exact ⟨log, hold⟩

theorem Quiet.elected (hq : Quiet i events) {log : List LogEntry}
    (hv : .elected i T log ∈ events ++ h) : .elected i T log ∈ h := by
  rcases List.mem_append.mp hv with hnew | hold
  · exact absurd (hq _ hnew rfl) (by simp [Event.ballot])
  · exact hold

theorem Voter.append (hn : Voter cfg h i n) (hq : Quiet i events) :
    Voter cfg (events ++ h) i n where
  nodeId := hn.nodeId
  peers := hn.peers
  term_nonneg := hn.term_nonneg
  voted_le T c hv := hn.voted_le T c (hq.voted hv)
  elected_mem T log hv := hn.elected_mem T log (hq.elected hv)
  elected_bounds T log hv := hn.elected_bounds T log (hq.elected hv)
  votedFor hne := (hn.votedFor hne).append
  leader hrole := by
    obtain ⟨log, hlog⟩ := hn.leader hrole
    exact ⟨log, List.mem_append_right events hlog⟩

theorem Poll.append (hp : Poll cfg h i n request voters pending) (hq : Quiet i events) :
    Poll cfg (events ++ h) i n request voters pending where
  mem := hp.mem
  candidate := hp.candidate
  term_pos := hp.term_pos
  term_le := hp.term_le
  fresh T log hv := hp.fresh T log (hq.elected hv)
  lastLogIndex := hp.lastLogIndex
  lastLogTerm := hp.lastLogTerm
  granted v hv := ⟨(hp.granted v hv).1, (hp.granted v hv).2.append⟩
  nodup := hp.nodup
  pending := hp.pending

/-- What was requested is still what a call refers to. -/
theorem requests_append {requests new : List Envelope} {call : ℕ} {env : Envelope}
    (h : requests[call]? = some env) : (requests ++ new)[call]? = some env := by
  obtain ⟨hlt, -⟩ := List.getElem?_eq_some_iff.mp h
  rw [List.getElem?_append_left hlt]
  exact h

theorem Polling.append {requests new : List Envelope} {a : Activity}
    (ha : Polling cfg ⟨requests, h⟩ i n a) (hq : Quiet i events) :
    Polling cfg ⟨requests ++ new, events ++ h⟩ i n a := by
  cases a with
  | electing request remaining votes =>
    obtain ⟨voters, hcard, hpoll⟩ := ha
    exact ⟨voters, hcard, hpoll.append hq⟩
  | awaitingVote request remaining votes call =>
    obtain ⟨voters, peer, hcard, hpoll, hcall⟩ := ha
    exact ⟨voters, peer, hcard, hpoll.append hq, requests_append hcall⟩
  | idle | heartbeating | awaitingAppend => trivial

theorem VoteReply.append {requests new : List Envelope} {rep : Reply}
    (hr : VoteReply ⟨requests, h⟩ rep) : VoteReply ⟨requests ++ new, events ++ h⟩ rep := by
  intro response hbody hgranted
  obtain ⟨src, dst, request, hcall, hvote⟩ := hr response hbody hgranted
  exact ⟨src, dst, request, requests_append hcall, hvote.append⟩

/-- Whatever a step of one node writes down, the other nodes' ballots stand. -/
theorem ballots_survive {s : Cluster} {e : Cluster.Effect} (hev : ∀ ev ∈ e.events, ev.node = i) :
    (ballots cfg).Survive i s.record (s.after i e).record where
  node j n a hj hn := by
    have hq : Quiet j e.events := fun ev hmem hnode => absurd (hnode ▸ hev ev hmem) hj
    exact ⟨hn.1.append hq, hn.2.append hq⟩
  request _ _ := trivial
  reply _ hr := hr.append
  event _ _ := trivial

end Growth

/-! ### What the methods keep -/

section Methods

variable {cfg : ClusterConfig} {h : List Event} {i : Bytes} {n n' : RaftNode}

/-- Ballots concern a few of the node's fields. -/
theorem Voter.congr (hn : Voter cfg h i n) (hid : n'.nodeId = n.nodeId)
    (hpeers : n'.peers = n.peers)
    (hterm : n'.currentTerm = n.currentTerm) (hvote : n'.votedFor = n.votedFor)
    (hrole : n'.role = n.role) : Voter cfg h i n' where
  nodeId := hid.trans hn.nodeId
  peers := hpeers.trans hn.peers
  term_nonneg := by rw [hterm]; exact hn.term_nonneg
  voted_le := by rw [hterm]; exact hn.voted_le
  elected_mem := hn.elected_mem
  elected_bounds := by rw [hterm]; exact hn.elected_bounds
  votedFor := by rw [hterm, hvote]; exact hn.votedFor
  leader := by rw [hterm, hrole]; exact hn.leader

theorem Voter.becomeFollower (hn : Voter cfg h i n) {term : ℤ} (hterm : n.currentTerm ≤ term)
    (leaderId : Bytes) : Voter cfg h i (n.becomeFollower term leaderId) where
  nodeId := hn.nodeId
  peers := hn.peers
  term_nonneg := le_trans hn.term_nonneg hterm
  voted_le T c hv := le_trans (hn.voted_le T c hv) hterm
  elected_mem := hn.elected_mem
  elected_bounds T log hv := (hn.elected_bounds T log hv).imp_right fun hle => le_trans hle hterm
  votedFor hne := absurd rfl hne
  leader hrole := by simp [RaftNode.becomeFollower] at hrole

theorem Voter.observeTerm (hn : Voter cfg h i n) (term : ℤ) :
    Voter cfg h i (n.observeTerm term) := by
  rcases n.observeTerm_eq_or term with heq | ⟨hlt, heq⟩
  · rw [heq]
    exact hn
  · rw [heq]
    exact hn.becomeFollower (le_of_lt hlt) []

theorem Voter.updateCommitIndex (hn : Voter cfg h i n) : Voter cfg h i n.updateCommitIndex := by
  unfold RaftNode.updateCommitIndex
  split
  · exact hn.congr rfl rfl rfl rfl rfl
  · exact hn

theorem Voter.handleAppendReply (hn : Voter cfg h i n) (peer : RaftPeer)
    (response : AppendEntriesResponse) : Voter cfg h i (n.handleAppendReply peer response) := by
  rcases n.handleAppendReply_cases peer response with
    ⟨hlt, heq⟩ | ⟨-, ⟨k, next, -, heq⟩ | ⟨-, k, -, heq⟩⟩
  · rw [heq]
    exact hn.becomeFollower (le_of_lt hlt) []
  · rw [heq]
    exact hn.congr rfl rfl rfl rfl rfl
  · rw [heq]
    refine Voter.updateCommitIndex ?_
    exact hn.congr rfl rfl rfl rfl rfl

theorem Voter.handleAppendEntries (hn : Voter cfg h i n) {request : AppendEntriesRequest}
    {response : AppendEntriesResponse}
    (heq : n.handleAppendEntries request = some (n', response)) : Voter cfg h i n' := by
  rcases RaftNode.handleAppendEntries_cases heq with
    ⟨-, rfl, -⟩ | ⟨hterm, -, rfl, -⟩ | ⟨hterm, -, log, -, rfl, -⟩
  · exact hn
  · exact hn.becomeFollower hterm _
  · exact (hn.becomeFollower hterm request.leaderId).congr rfl rfl rfl rfl rfl

/-- A node that answers a vote request has cast the vote it granted. -/
theorem Voter.handleRequestVote (hn : Voter cfg h i n) {request : RequestVoteRequest}
    {response : RequestVoteResponse} (heq : n.handleRequestVote request = (n', response)) :
    Voter cfg (Cluster.voteEvents i n' request response ++ h) i n' := by
  rcases n.handleRequestVote_cases request with ⟨-, hcase⟩ | ⟨-, hcase⟩ | ⟨hterm, -, -, hcase⟩
  · obtain ⟨rfl, rfl⟩ := Prod.mk.inj (hcase.symm.trans heq)
    exact hn
  · obtain ⟨rfl, rfl⟩ := Prod.mk.inj (hcase.symm.trans heq)
    exact hn.observeTerm request.term
  · obtain ⟨rfl, rfl⟩ := Prod.mk.inj (hcase.symm.trans heq)
    have hn' := hn.observeTerm request.term
    have hcur : (n.observeTerm request.term).currentTerm = request.term :=
      n.currentTerm_observeTerm hterm
    refine ⟨hn'.nodeId, hn'.peers, hn'.term_nonneg, ?_, ?_, ?_, ?_, ?_⟩
    · rintro T c ⟨log, hlog⟩
      rcases List.mem_append.mp hlog with hnew | hold
      · -- the vote just cast is one in the term the node is in now
        simp only [Cluster.voteEvents, if_true, List.mem_singleton, Event.voted.injEq] at hnew
        exact le_of_eq (hnew.2.1.trans hcur.symm)
      · exact hn'.voted_le T c ⟨log, hold⟩
    · intro T log hlog
      rcases List.mem_append.mp hlog with hnew | hold
      · simp [Cluster.voteEvents] at hnew
      · exact hn'.elected_mem T log hold
    · intro T log hlog
      rcases List.mem_append.mp hlog with hnew | hold
      · simp [Cluster.voteEvents] at hnew
      · exact hn'.elected_bounds T log hold
    · intro _
      exact ⟨_, List.mem_append_left _ (by simp [Cluster.voteEvents, hcur]; rfl)⟩
    · intro hrole
      obtain ⟨log, hlog⟩ := hn'.leader hrole
      exact ⟨log, List.mem_append_right _ hlog⟩

end Methods

/-! ### The steps -/

section Steps

variable {cfg : ClusterConfig} {s : Cluster} {i : Bytes}

/-- The peers of a member are the other members. -/
theorem ClusterConfig.mem_peers (hi : i ∈ cfg.members) {j : Bytes} :
    j ∈ cfg.peers i ↔ j ∈ cfg.members ∧ j ≠ i := by
  rw [(cfg.peers_perm i hi).mem_iff, cfg.nodup.mem_erase_iff, and_comm]

theorem ClusterConfig.map_nodeId_peerList (cfg : ClusterConfig) (i : Bytes) :
    (cfg.peerList i).map RaftPeer.nodeId = cfg.peers i := by
  simp only [ClusterConfig.peerList, List.map_map, Function.comp_def, List.map_id']

theorem ClusterConfig.length_peerList (hi : i ∈ cfg.members) :
    (cfg.peerList i).length + 1 = cfg.members.length := by
  rw [ClusterConfig.peerList, List.length_map, (cfg.peers_perm i hi).length_eq,
    List.length_erase_of_mem hi]
  have := List.length_pos_of_mem hi
  omega

/-- A member whose majority of votes came in has a majority of the cluster behind it. -/
theorem Poll.isMajority {h : List Event} {n : RaftNode} {request : RequestVoteRequest}
    {voters : Finset Bytes} {pending : List RaftPeer} (hp : Poll cfg h i n request voters pending)
    (hn : Voter cfg h i n) (hwin : n.majority ≤ voters.card) :
    IsMajority cfg.members.toFinset voters := by
  refine ⟨fun v hv => List.mem_toFinset.mpr (hp.granted v hv).1, ?_⟩
  have hlen := ClusterConfig.length_peerList hp.mem
  rw [List.toFinset_card_of_nodup cfg.nodup]
  rw [RaftNode.majority, hn.peers] at hwin
  omega

/-- A vote that came in is one more voter. -/
theorem Poll.gain {h : List Event} {n : RaftNode} {request : RequestVoteRequest}
    {voters : Finset Bytes} {peer : RaftPeer} {remaining : List RaftPeer}
    (hp : Poll cfg h i n request voters (peer :: remaining))
    (hvote : Granted h peer.nodeId request) :
    Poll cfg h i n request (insert peer.nodeId voters) remaining := by
  have hnodup := List.nodup_cons.mp hp.nodup
  have hpeer := hp.pending peer List.mem_cons_self
  refine ⟨hp.mem, hp.candidate, hp.term_pos, hp.term_le, hp.fresh, hp.lastLogIndex,
    hp.lastLogTerm, ?_,
    hnodup.2, ?_⟩
  · intro v hv
    rcases Finset.mem_insert.mp hv with rfl | hv
    · exact ⟨hpeer.1, hvote⟩
    · exact hp.granted v hv
  · intro p hmem
    have hp' := hp.pending p (List.mem_cons_of_mem peer hmem)
    refine ⟨hp'.1, fun hin => ?_⟩
    rcases Finset.mem_insert.mp hin with heq | hin
    · exact hnodup.1 (heq ▸ List.mem_map_of_mem hmem)
    · exact hp'.2 hin

/-- A peer that was asked need not be asked again. -/
theorem Poll.skip {h : List Event} {n : RaftNode} {request : RequestVoteRequest}
    {voters : Finset Bytes} {peer : RaftPeer} {remaining : List RaftPeer}
    (hp : Poll cfg h i n request voters (peer :: remaining)) :
    Poll cfg h i n request voters remaining :=
  ⟨hp.mem, hp.candidate, hp.term_pos, hp.term_le, hp.fresh, hp.lastLogIndex, hp.lastLogTerm,
    hp.granted,
    (List.nodup_cons.mp hp.nodup).2, fun p hmem => hp.pending p (List.mem_cons_of_mem peer hmem)⟩

/-- The candidate may learn of a later term during its election. -/
theorem Poll.congr {h : List Event} {n n' : RaftNode} {request : RequestVoteRequest}
    {voters : Finset Bytes} {pending : List RaftPeer} (hp : Poll cfg h i n request voters pending)
    (hterm : n.currentTerm ≤ n'.currentTerm) (hlog : n'.log = n.log) :
    Poll cfg h i n' request voters pending where
  mem := hp.mem
  candidate := hp.candidate
  term_pos := hp.term_pos
  term_le := le_trans hp.term_le hterm
  fresh := hp.fresh
  lastLogIndex := by rw [hlog]; exact hp.lastLogIndex
  lastLogTerm := by rw [hlog]; exact hp.lastLogTerm
  granted := hp.granted
  nodup := hp.nodup
  pending := hp.pending

theorem Polling.congr {r : Record} {n n' : RaftNode} {a : Activity} (ha : Polling cfg r i n a)
    (hterm : n.currentTerm ≤ n'.currentTerm) (hlog : n'.log = n.log) : Polling cfg r i n' a := by
  cases a with
  | electing request remaining votes =>
    obtain ⟨voters, hcard, hpoll⟩ := ha
    exact ⟨voters, hcard, hpoll.congr hterm hlog⟩
  | awaitingVote request remaining votes call =>
    obtain ⟨voters, peer, hcard, hpoll, hcall⟩ := ha
    exact ⟨voters, peer, hcard, hpoll.congr hterm hlog, hcall⟩
  | idle | heartbeating | awaitingAppend => trivial

section StartElection

variable {h : List Event} {n : RaftNode}

/-- The term of an election follows the term the node was in. -/
theorem Voter.currentTerm_startElection (hn : Voter cfg h i n)
    (hfits : n.currentTerm < 2 ^ 63 - 1) :
    n.startElection.1.currentTerm = n.currentTerm + 1 ∧
      n.startElection.2.term = n.currentTerm + 1 := by
  have hnonneg := hn.term_nonneg
  have hwrap : RaftNode.wrap64 (n.currentTerm + 1) = n.currentTerm + 1 :=
    RaftNode.wrap64_of_lt (by omega) (by omega)
  exact ⟨hwrap, hwrap⟩

/-- The vote a node gives itself is no election. -/
theorem Voter.elected_bounds_cons (hn : Voter cfg h i n) {T U : ℤ} {log log' : List LogEntry}
    (hlog : Event.elected i T log ∈ .voted i U i log' :: h) : 0 < T ∧ T ≤ n.currentTerm := by
  rcases List.mem_cons.mp hlog with heq | hold
  · exact absurd heq (by simp)
  · exact hn.elected_bounds T log hold

/-- A node that starts an election has voted for itself. -/
theorem Voter.startElection (hn : Voter cfg h i n) (hi : i ∈ cfg.members)
    (hfits : n.currentTerm < 2 ^ 63 - 1) :
    Voter cfg (.voted i n.startElection.2.term i n.log :: h) i n.startElection.1 := by
  have hnonneg := hn.term_nonneg
  obtain ⟨hterm, hterm'⟩ := hn.currentTerm_startElection hfits
  refine
    { nodeId := hn.nodeId
      peers := hn.peers
      term_nonneg := by omega
      voted_le := ?_
      elected_mem := fun _ _ _ => hi
      elected_bounds := ?_
      votedFor := ?_
      leader := ?_ }
  · rintro T c ⟨log, hlog⟩
    rcases List.mem_cons.mp hlog with heq | hold
    · rw [Event.voted.injEq] at heq
      omega
    · have hle := hn.voted_le T c ⟨log, hold⟩
      omega
  · intro T log hlog
    have hbounds := hn.elected_bounds_cons hlog
    omega
  · intro _
    refine ⟨n.log, List.mem_cons.mpr (Or.inl ?_)⟩
    rw [hterm, hterm']
    exact congrArg (fun c => Event.voted i _ c n.log) hn.nodeId
  · intro hrole
    simp [RaftNode.startElection, RaftNode.becomeCandidate] at hrole

/-- Its poll opens with its own vote, in a term it has not led, and all peers to be asked. -/
theorem Poll.startElection (hn : Voter cfg h i n) (hi : i ∈ cfg.members)
    (hfits : n.currentTerm < 2 ^ 63 - 1) :
    Poll cfg (.voted i n.startElection.2.term i n.log :: h) i n.startElection.1
      n.startElection.2 {i} n.peers := by
  have hnonneg := hn.term_nonneg
  obtain ⟨hterm, hterm'⟩ := hn.currentTerm_startElection hfits
  have hcandidate : n.startElection.2.candidateId = i := hn.nodeId
  refine
    { mem := hi
      candidate := hcandidate
      term_pos := by omega
      term_le := by rw [hterm, hterm']
      fresh := ?_
      lastLogIndex := rfl
      lastLogTerm := rfl
      granted := ?_
      nodup := ?_
      pending := ?_ }
  · intro T log hlog
    have hbounds := hn.elected_bounds_cons hlog
    omega
  · intro v hv
    rw [Finset.mem_singleton.mp hv]
    refine ⟨hi, n.log, ?_, Or.inr ⟨rfl, le_refl _⟩⟩
    rw [hcandidate]
    exact List.mem_cons_self
  · rw [hn.peers, cfg.map_nodeId_peerList]
    exact (cfg.peers_perm i hi).nodup_iff.mpr (cfg.nodup.erase i)
  · intro p hp
    have hpeer : p.nodeId ∈ cfg.peers i := by
      rw [← cfg.map_nodeId_peerList, ← hn.peers]
      exact List.mem_map_of_mem hp
    rw [ClusterConfig.mem_peers hi] at hpeer
    exact ⟨hpeer.1, fun hin => hpeer.2 (Finset.mem_singleton.mp hin)⟩

end StartElection

/-- A node that wins has led its term. -/
theorem Voter.becomeLeader {h : List Event} {n : RaftNode} (hn : Voter cfg h i n)
    (hi : i ∈ cfg.members) (hpos : 0 < n.currentTerm) :
    Voter cfg (.elected i n.currentTerm n.log :: h) i n.becomeLeader where
  nodeId := hn.nodeId
  peers := hn.peers
  term_nonneg := hn.term_nonneg
  voted_le T c hv := by
    obtain ⟨log, hlog⟩ := hv
    rcases List.mem_cons.mp hlog with heq | hold
    · exact absurd heq (by simp)
    · exact hn.voted_le T c ⟨log, hold⟩
  elected_mem _ _ _ := hi
  elected_bounds T log hlog := by
    rcases List.mem_cons.mp hlog with heq | hold
    · rw [(Event.elected.inj heq).2.1]
      exact ⟨hpos, le_refl _⟩
    · exact hn.elected_bounds T log hold
  votedFor hne := by
    rw [← List.singleton_append]
    exact (hn.votedFor hne).append
  leader _ := ⟨n.log, List.mem_cons_self⟩

/-- A reply to a vote request says what was written down. -/
theorem voteReply_handle {n n' : RaftNode} {request : RequestVoteRequest}
    {response : RequestVoteResponse} (heq : n.handleRequestVote request = (n', response))
    (hgranted : response.voteGranted = true) (h : List Event) :
    Granted (Cluster.voteEvents i n' request response ++ h) i request := by
  rcases n.handleRequestVote_cases request with ⟨-, hcase⟩ | ⟨-, hcase⟩ | ⟨-, -, hok, hcase⟩
  · obtain ⟨rfl, rfl⟩ := Prod.mk.inj (hcase.symm.trans heq)
    simp at hgranted
  · obtain ⟨rfl, rfl⟩ := Prod.mk.inj (hcase.symm.trans heq)
    simp at hgranted
  · obtain ⟨rfl, rfl⟩ := Prod.mk.inj (hcase.symm.trans heq)
    refine ⟨(n.observeTerm request.term).log, List.mem_append_left _ ?_, ?_⟩
    · simp [Cluster.voteEvents]
    · rw [n.log_observeTerm]
      exact hok

/-- **The invariant holds after every step.** -/
theorem ballots_after {a : Cluster.Action} {e : Cluster.Effect} (hs : (ballots cfg).Hold s)
    (hfits : s.TermFits a) (hstep : Cluster.Step cfg s a i e) :
    (ballots cfg).Hold (s.after i e) := by
  refine hs.after (ballots_survive hstep.node_of_mem_events) ?_
  obtain ⟨hvoter, hpolling⟩ := hs.node i
  cases hstep with
  | electionTimeout i hmem hidle hrole =>
    have hpoll := Poll.startElection hvoter hmem hfits
    refine ⟨⟨hvoter.startElection hmem hfits, {i}, Finset.card_singleton i, hpoll⟩, ?_, ?_,
      fun _ _ => trivial⟩
    · simp
    · simp
  | sendRequestVote i request peer remaining votes hact =>
    rw [hact] at hpolling
    obtain ⟨voters, hcard, hpoll⟩ := hpolling
    refine ⟨⟨hvoter, voters, peer, hcard, hpoll, ?_⟩, fun _ _ => trivial, ?_, fun _ _ => trivial⟩
    · exact List.getElem?_concat_length
    · simp
  | receiveVote i reply request remaining votes call response hact hreply =>
    rw [hact] at hpolling
    obtain ⟨voters, peer, hcard, hpoll, hcall⟩ := hpolling
    refine Parts.Brings.of_node ?_ rfl rfl rfl
    rcases (s.nodes i).handleVoteReply_cases response with ⟨hlt, heq⟩ | heq
    · -- the later term does not end the election, but the vote is lost
      simp only [heq]
      refine ⟨hvoter.becomeFollower (le_of_lt hlt) [], voters, hcard, ?_⟩
      exact hpoll.skip.congr (le_of_lt hlt) rfl
    · simp only [heq]
      refine ⟨hvoter, ?_⟩
      by_cases hgranted : response.voteGranted = true
      · obtain ⟨src, dst, request', hcall', hvote⟩ :=
          hs.reply _ (List.mem_of_getElem? hreply) response rfl hgranted
        have hsame := hcall'.symm.trans hcall
        simp only [Option.some.injEq, Envelope.mk.injEq, Request.requestVote.injEq] at hsame
        obtain ⟨-, rfl, rfl⟩ := hsame
        refine ⟨insert peer.nodeId voters, ?_, hpoll.gain hvote⟩
        rw [if_pos hgranted, Finset.card_insert_of_notMem (hpoll.pending peer List.mem_cons_self).2,
          hcard]
      · rw [if_neg hgranted]
        exact ⟨voters, hcard, hpoll.skip⟩
  | loseVote i request remaining votes call hact =>
    rw [hact] at hpolling
    obtain ⟨voters, peer, hcard, hpoll, -⟩ := hpolling
    exact Parts.Brings.of_node ⟨hvoter, voters, hcard, hpoll.skip⟩ rfl rfl rfl
  | winElection i request votes hact hwin =>
    rw [hact] at hpolling
    obtain ⟨voters, -, hpoll⟩ := hpolling
    have hpos : 0 < (s.nodes i).currentTerm := lt_of_lt_of_le hpoll.term_pos hpoll.term_le
    refine ⟨⟨hvoter.becomeLeader hpoll.mem hpos, trivial⟩, ?_, ?_, fun _ _ => trivial⟩
    · simp
    · simp
  | failElection i request votes hact =>
    exact Parts.Brings.of_node ⟨hvoter.becomeFollower (le_refl _) [], trivial⟩ rfl rfl rfl
  | startHeartbeat | loseAppend | finishHeartbeat | refuse =>
    exact Parts.Brings.of_node ⟨hvoter, trivial⟩ rfl rfl rfl
  | sendAppendEntries i next peer request hact hpeer hrequest =>
    exact ⟨⟨hvoter, trivial⟩, fun _ _ => trivial, by simp, fun _ _ => trivial⟩
  | receiveAppend i reply next call peer response hact hreply hpeer =>
    exact Parts.Brings.of_node ⟨hvoter.handleAppendReply peer response, trivial⟩ rfl rfl rfl
  | deliverVote call src i request n response hrequest hidle hhandle =>
    refine ⟨⟨hvoter.handleRequestVote hhandle, trivial⟩, by simp, ?_, fun _ _ => trivial⟩
    intro rep hrep response' hbody hgranted
    rw [List.mem_singleton.mp hrep] at hbody ⊢
    obtain rfl := Response.requestVote.inj hbody
    exact ⟨src, i, request, s.requests_after_of_some i _ hrequest,
      voteReply_handle hhandle hgranted s.history⟩
  | deliverAppend call src i request n response hrequest hidle hhandle =>
    have hquiet : Quiet i (Cluster.appendEvents i n request response) := by
      intro ev hev _
      rw [(Cluster.mem_appendEvents hev).2]
      rfl
    refine ⟨⟨(hvoter.handleAppendEntries hhandle).append hquiet, trivial⟩, by simp, ?_,
      fun _ _ => trivial⟩
    intro rep hrep response' hbody
    rw [List.mem_singleton.mp hrep] at hbody
    simp at hbody
  | propose i operation entry acknowledged hmem hidle hrole hterm hindex =>
    have hquiet : Quiet i
        (Cluster.proposeEvents i acknowledged ((s.nodes i).log.length + 1) entry) := by
      intro ev hev _
      rcases Cluster.mem_proposeEvents hev with ⟨-, rfl⟩ | rfl
      · rfl
      · rfl
    have hvoter' : Voter cfg s.history i { s.nodes i with log := (s.nodes i).log ++ [entry] } :=
      hvoter.congr rfl rfl rfl rfl rfl
    exact ⟨⟨hvoter'.append hquiet, trivial⟩, by simp, by simp, fun _ _ => trivial⟩
  | applyCommitted i hact =>
    obtain ⟨applied, hnode⟩ := (s.nodes i).applyCommittedEntries_node
    have hquiet : Quiet i ((s.nodes i).applyCommittedEntries.2.reverse.map fun p =>
        .applied i p.1 p.2) := by
      intro ev hev _
      obtain ⟨p, -, rfl⟩ := List.mem_map.mp hev
      rfl
    simp only [hnode]
    have hvoter' : Voter cfg s.history i { s.nodes i with lastApplied := applied } :=
      hvoter.congr rfl rfl rfl rfl rfl
    have hpolling' : Polling cfg s.record i { s.nodes i with lastApplied := applied }
        (s.activity i) := hpolling.congr (le_refl _) rfl
    exact ⟨⟨hvoter'.append hquiet, hpolling'.append hquiet⟩, by simp, by simp,
      fun _ _ => trivial⟩

theorem ballots_start (cfg : ClusterConfig) : (ballots cfg).Hold (Cluster.start cfg) where
  node i := by
    refine ⟨⟨rfl, rfl, le_refl _, ?_, ?_, ?_, fun hne => absurd rfl hne, ?_⟩, trivial⟩
    · rintro T c ⟨log, hlog⟩
      exact absurd hlog List.not_mem_nil
    · intro T log hlog
      exact absurd hlog List.not_mem_nil
    · intro T log hlog
      exact absurd hlog List.not_mem_nil
    · intro hrole
      simp [Cluster.start, RaftNode.new] at hrole
  request _ _ := trivial
  reply _ hr := absurd hr List.not_mem_nil
  event _ _ := trivial

/-- **The invariant holds along every run** in which terms do not wrap around. -/
theorem ballots_exec {guard : Cluster → Cluster.Action → Prop} [∀ s a, Decidable (guard s a)]
    (hguard : ∀ s a, guard s a → s.TermFits a) {as : List Cluster.Action} {t : Cluster}
    (h : ((cluster cfg).restrict guard).exec (Cluster.start cfg) as = some t) :
    (ballots cfg).Hold t := by
  refine System.exec_invariant ?_ (ballots_start cfg) h
  intro s a t hs hst
  obtain ⟨hg, hnext⟩ := System.step_restrict.mp hst
  obtain ⟨i, e, hstep, rfl⟩ := Cluster.step_cases hnext
  exact ballots_after hs (hguard s a hg) hstep

end Steps
