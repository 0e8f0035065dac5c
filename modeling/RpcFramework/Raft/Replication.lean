import RpcFramework.Lib.Consensus
import RpcFramework.Raft.LogMatching

/-!
# The cluster follows the protocol

Step by step, a cluster that meets `FollowsRaft` does what the protocol of
`Lib/Consensus` allows, with the terms and the logs of its nodes and the facts that were
written down.  What the protocol does not speak of is what the nodes make of it: the
leader's account of its followers, and the commit indices.

## Main definitions

* `Cluster.replicas` — the cluster as a state of the protocol.
* `replication` — the invariant of requests, replies, accounts and commit indices.

## Main results

* `replicas_step` — **every step is a step of the protocol.**
* `replication_after` — the invariant holds after every step.
-/

open Rpc

/-- The cluster, as the protocol sees it. -/
def Cluster.replicas (s : Cluster) : Replicas Bytes LogEntry where
  terms i := (s.nodes i).currentTerm
  logs i := (s.nodes i).log
  facts := facts s.history

/-- A majority of the members acknowledged the log in the term. -/
def Chosen (cfg : ClusterConfig) (h : List Event) : ℤ → List LogEntry → Prop :=
  Replicas.Chosen LogEntry.term cfg.members.toFinset (facts h)

/-- The log is the beginning of one that was chosen in a term up to the given one. -/
def Certified (cfg : ClusterConfig) (h : List Event) : ℤ → List LogEntry → Prop :=
  Replicas.Certified LogEntry.term cfg.members.toFinset (facts h)

/-- The node had the log in the term, from the term's leader. -/
def Acked (h : List Event) : Bytes → ℤ → List LogEntry → Prop :=
  Replicas.Acked LogEntry.term (facts h)

/-- The commit index is in the log, and what is before it is settled. -/
structure Committed (cfg : ClusterConfig) (h : List Event) (n : RaftNode) : Prop where
  applied_nonneg : 0 ≤ n.lastApplied
  applied_le : n.lastApplied ≤ n.commitIndex
  commit_le : n.commitIndex ≤ n.log.length
  certified : Certified cfg h n.currentTerm (n.log.take n.commitIndex.toNat)

/-- A leader's account of each peer is an acknowledgement of that peer. -/
structure Accounted (h : List Event) (n : RaftNode) : Prop where
  length : n.matchIndex.length = n.peers.length
  acked : n.role = .leader → ∀ (k : ℕ) (p : RaftPeer) (m : ℤ), n.peers[k]? = some p →
    n.matchIndex[k]? = some m →
      m ≤ n.log.length ∧ (0 < m → Acked h p.nodeId n.currentTerm (n.log.take m.toNat))

/-- A node that waits for an answer has the log and the term that it sent. -/
def Waiting (r : Record) (i : Bytes) (n : RaftNode) : Activity → Prop
  | .awaitingAppend next call =>
      ∃ peer request, n.peers[next]? = some peer ∧
        r.requests[call]? = some ⟨i, peer.nodeId, .appendEntries request⟩ ∧
        Snapshot n.log request ∧ request.term = n.currentTerm
  | _ => True

/-- A request comes from the leader of its term, and the commit index it carries is settled
for the log it carries. -/
def FromLeader (cfg : ClusterConfig) (h : List Event) (request : AppendEntriesRequest) : Prop :=
  ∃ c E log, Snapshot log request ∧ .elected c request.term E ∈ h ∧ E <+: log ∧
    log <+: canon h request.term ∧ request.leaderCommit ≤ log.length ∧
    Certified cfg h request.term (log.take request.leaderCommit.toNat)

/-- A report of success is on a log that was accepted. -/
def AppendReply (r : Record) (rep : Reply) : Prop :=
  ∀ response, rep.body = .appendEntries response → response.success = true →
    ∃ src dst request log,
      r.requests[rep.call]? = some ⟨src, dst, .appendEntries request⟩ ∧
        .accepted dst request.term log ∈ r.history ∧
        log.length = request.prevLogIndex.toNat + request.entries.length

/-- What is applied was chosen. -/
def Settled (cfg : ClusterConfig) (h : List Event) (index : ℤ) (entry : LogEntry) : Prop :=
  0 < index ∧ ∃ T log, Chosen cfg h T log ∧ log[(index - 1).toNat]? = some entry

/-- The invariant. -/
def replication (cfg : ClusterConfig) : Parts where
  node r i n a := Committed cfg r.history n ∧ Accounted r.history n ∧ Waiting r i n a
  request r env := ∀ request, env.body = .appendEntries request →
    FromLeader cfg r.history request
  reply := AppendReply
  event r ev := ∀ i index entry, ev = .applied i index entry → Settled cfg r.history index entry

/-! ### The steps of the protocol -/

section Refinement

variable {cfg : ClusterConfig} {s : Cluster} {i : Bytes}

theorem replicas_after (s : Cluster) (i : Bytes) (e : Cluster.Effect) :
    (s.after i e).replicas = s.replicas.set i e.node.currentTerm e.node.log (facts e.events) := by
  have hterms : (s.after i e).replicas.terms =
      Function.update s.replicas.terms i e.node.currentTerm :=
    Function.comp_update RaftNode.currentTerm s.nodes i e.node
  have hlogs : (s.after i e).replicas.logs = Function.update s.replicas.logs i e.node.log :=
    Function.comp_update RaftNode.log s.nodes i e.node
  have hfacts : (s.after i e).replicas.facts = facts e.events ++ s.replicas.facts := facts_append
  rw [Replicas.set, ← hterms, ← hlogs, ← hfacts]

/-- A step that at most raises the node's term. -/
theorem replicas_advance {e : Cluster.Effect} (hlog : e.node.log = (s.nodes i).log)
    (hterm : (s.nodes i).currentTerm ≤ e.node.currentTerm) (hfacts : facts e.events = []) :
    Replicas.Step LogEntry.term cfg.members.toFinset s.replicas (s.after i e).replicas := by
  rw [replicas_after, hlog, hfacts]
  exact .advance i _ hterm

/-- The node's log, its indices and its account of its peers are as they were, and it has
not become leader. -/
structure SameLog (n n' : RaftNode) : Prop where
  log : n'.log = n.log
  commitIndex : n'.commitIndex = n.commitIndex
  lastApplied : n'.lastApplied = n.lastApplied
  peers : n'.peers = n.peers
  matchIndex : n'.matchIndex = n.matchIndex
  term_le : n.currentTerm ≤ n'.currentTerm
  role : n'.role = .leader → n.role = .leader ∧ n'.currentTerm = n.currentTerm

section SameLog

variable {n : RaftNode}

theorem SameLog.refl : SameLog n n :=
  ⟨rfl, rfl, rfl, rfl, rfl, le_refl _, fun hlead => ⟨hlead, rfl⟩⟩

theorem SameLog.becomeFollower {term : ℤ} (hterm : n.currentTerm ≤ term) (leaderId : Bytes) :
    SameLog n (n.becomeFollower term leaderId) :=
  ⟨rfl, rfl, rfl, rfl, rfl, hterm, fun hlead => absurd hlead (by simp [RaftNode.becomeFollower])⟩

theorem SameLog.observeTerm (term : ℤ) : SameLog n (n.observeTerm term) := by
  rcases n.observeTerm_eq_or term with heq | ⟨hlt, heq⟩
  · rw [heq]
    exact SameLog.refl
  · rw [heq]
    exact SameLog.becomeFollower (le_of_lt hlt) []

theorem SameLog.handleVoteReply (response : RequestVoteResponse) :
    SameLog n (n.handleVoteReply response).1 := by
  rcases n.handleVoteReply_cases response with ⟨hlt, heq⟩ | heq
  · rw [heq]
    exact SameLog.becomeFollower (le_of_lt hlt) []
  · rw [heq]
    exact SameLog.refl

theorem SameLog.handleRequestVote {n' : RaftNode} {request : RequestVoteRequest}
    {response : RequestVoteResponse} (heq : n.handleRequestVote request = (n', response)) :
    SameLog n n' := by
  have hobs : SameLog n (n.observeTerm request.term) := SameLog.observeTerm request.term
  rcases n.handleRequestVote_cases request with ⟨-, hcase⟩ | ⟨-, hcase⟩ | ⟨-, -, -, hcase⟩
  · obtain ⟨rfl, -⟩ := Prod.mk.inj (hcase.symm.trans heq)
    exact SameLog.refl
  · obtain ⟨rfl, -⟩ := Prod.mk.inj (hcase.symm.trans heq)
    exact hobs
  · obtain ⟨rfl, -⟩ := Prod.mk.inj (hcase.symm.trans heq)
    exact ⟨hobs.log, hobs.commitIndex, hobs.lastApplied, hobs.peers, hobs.matchIndex,
      hobs.term_le, hobs.role⟩

end SameLog

/-- The request, which carries `log`, was accepted by `n`, which became `n'`. -/
structure Accepts (log : List LogEntry) (request : AppendEntriesRequest) (n n' : RaftNode) :
    Prop where
  term_le : n.currentTerm ≤ request.term
  term_eq : n'.currentTerm = request.term
  consistent : RaftNode.logConsistent n.log request
  length : log.length = request.prevLogIndex.toNat + request.entries.length
  /-- The log is what is written down. -/
  take : n'.log.take (request.prevLogIndex.toNat + request.entries.length) = log
  commitIndex : n'.commitIndex =
    if n.commitIndex < request.leaderCommit then min request.leaderCommit n'.log.length
    else n.commitIndex
  log : request.entries ≠ [] ∧ n'.log = log ∨ n'.log = n.log ∧ log <+: n.log
  role : n'.role = .follower
  lastApplied : n'.lastApplied = n.lastApplied
  matchIndex : n'.matchIndex = n.matchIndex
  peers : n'.peers = n.peers

/-- A request is refused, and at most the term rises, or accepted. -/
theorem accept_cases {h : List Event} {n n' : RaftNode} {request : AppendEntriesRequest}
    {response : AppendEntriesResponse} {log : List LogEntry} (hn : Matching h i n)
    (hsnap : Snapshot log request) (hlog : Conforms LogEntry.term (canon h) log)
    (heq : n.handleAppendEntries request = some (n', response)) :
    response.success = false ∧ SameLog n n' ∨
      response.success = true ∧ Accepts log request n n' := by
  rcases RaftNode.handleAppendEntries_cases heq with
    ⟨-, rfl, rfl⟩ | ⟨hterm, -, rfl, rfl⟩ | ⟨hterm, hcons, log', hreplace, rfl, rfl⟩
  · exact Or.inl ⟨rfl, SameLog.refl⟩
  · exact Or.inl ⟨rfl, SameLog.becomeFollower hterm request.leaderId⟩
  · have hle := (hsnap.take_eq hlog hn.conforms hn.numbered hcons).1
    have hlen : log.length = request.prevLogIndex.toNat + request.entries.length := by
      rw [hsnap.entries, List.length_drop]
      omega
    have haccept := hsnap.accept hlog hn.conforms hn.numbered hcons hreplace
    refine Or.inr ⟨rfl, hterm, rfl, hcons, hlen, ?_, rfl, ?_, rfl, rfl, rfl, rfl⟩
    · rw [← hlen]
      rcases haccept with ⟨-, rfl⟩ | ⟨-, rfl, hpre⟩
      · exact List.take_length
      · exact (List.prefix_iff_eq_take.mp hpre).symm
    · rcases haccept with ⟨hne, rfl⟩ | ⟨-, rfl, hpre⟩
      · exact Or.inl ⟨hne, rfl⟩
      · exact Or.inr ⟨rfl, hpre⟩

/-- A request that does not erase what it brings leaves no log shorter that begins with the
sender's. -/
theorem log_eq_of_erasesConflicts {call : ℕ} {src dst : Bytes} {request : AppendEntriesRequest}
    {log : List LogEntry} (hguard : s.ErasesConflicts (.deliver call))
    (hrequest : s.requests[call]? = some ⟨src, dst, .appendEntries request⟩)
    (hterm : (s.nodes dst).currentTerm ≤ request.term)
    (hcons : RaftNode.logConsistent (s.nodes dst).log request) (hsnap : Snapshot log request)
    (hne : request.entries ≠ []) (hpre : log <+: (s.nodes dst).log) :
    (s.nodes dst).log = log := by
  simp only [Cluster.ErasesConflicts, hrequest] at hguard
  obtain ⟨r, hr⟩ := hpre
  have hle : request.prevLogIndex.toNat ≤ log.length := by
    by_contra hgt
    refine hne ?_
    rw [hsnap.entries]
    exact List.drop_eq_nil_of_le (by omega)
  have hdrop : (s.nodes dst).log.drop request.prevLogIndex.toNat = request.entries ++ r := by
    rw [← hr, List.drop_append_of_le_length hle, hsnap.entries]
  have hsame := hguard hterm hcons hne ⟨r, hdrop.symm⟩
  have hnil : r = [] := by simpa [hdrop] using hsame
  rw [← hr, hnil, List.append_nil]

theorem RaftNode.log_handleAppendReply (n : RaftNode) (peer : RaftPeer)
    (response : AppendEntriesResponse) :
    (n.handleAppendReply peer response).log = n.log ∧
      n.currentTerm ≤ (n.handleAppendReply peer response).currentTerm := by
  rcases n.handleAppendReply_cases peer response with
    ⟨hlt, heq⟩ | ⟨-, ⟨k, next, -, heq⟩ | ⟨-, k, -, heq⟩⟩
  · rw [heq]
    exact ⟨rfl, le_of_lt hlt⟩
  · rw [heq]
    exact ⟨rfl, le_refl _⟩
  · rw [heq]
    unfold RaftNode.updateCommitIndex
    split
    · exact ⟨rfl, le_refl _⟩
    · exact ⟨rfl, le_refl _⟩

/-- A vote that is granted is a vote of the protocol, the only one in its term. -/
theorem replicas_step_vote {call : ℕ} {src : Bytes} {request : RequestVoteRequest} {n : RaftNode}
    {response : RequestVoteResponse} (hvoter : Voter cfg s.history i (s.nodes i))
    (he : Elections cfg s.history) (hremembered : s.VoteRemembered (.deliver call))
    (hrequest : s.requests[call]? = some ⟨src, i, .requestVote request⟩)
    (hhandle : (s.nodes i).handleRequestVote request = (n, response)) :
    Replicas.Step LogEntry.term cfg.members.toFinset s.replicas
      (s.after i
        { node := n
          activity := .idle
          replies := [⟨call, .requestVote response⟩]
          events := Cluster.voteEvents i n request response }).replicas := by
  simp only [Cluster.VoteRemembered, hrequest] at hremembered
  have hsame := SameLog.handleRequestVote hhandle
  by_cases hgranted : response.voteGranted = true
  · have hterm : (s.nodes i).currentTerm ≤ request.term ∧ n.currentTerm = request.term := by
      rcases (s.nodes i).handleRequestVote_cases request with
        ⟨-, hcase⟩ | ⟨-, hcase⟩ | ⟨hle, -, -, hcase⟩
      · obtain ⟨-, rfl⟩ := Prod.mk.inj (hcase.symm.trans hhandle)
        simp at hgranted
      · obtain ⟨-, rfl⟩ := Prod.mk.inj (hcase.symm.trans hhandle)
        simp at hgranted
      · obtain ⟨rfl, -⟩ := Prod.mk.inj (hcase.symm.trans hhandle)
        exact ⟨hle, (s.nodes i).currentTerm_observeTerm hle⟩
    rw [replicas_after]
    simp only [Cluster.voteEvents, hgranted, if_true, hsame.log, hterm.2]
    refine .vote i request.candidateId request.term hterm.1 fun c log hmem => ?_
    exact vote_unique hvoter he hhandle hgranted hremembered ⟨log, mem_facts.mp hmem⟩
  · refine replicas_advance hsame.log hsame.term_le ?_
    simp only [Cluster.voteEvents, if_neg hgranted]
    rfl

/-- A log that is accepted replaces the node's, or is the beginning of it. -/
theorem replicas_step_append {call : ℕ} {src : Bytes} {request : AppendEntriesRequest}
    {n : RaftNode} {response : AppendEntriesResponse} (hm : matching.Hold s)
    (hr : (replication cfg).Hold s)
    (hi : s.replicas.Inv LogEntry.term cfg.members.toFinset)
    (herases : s.ErasesConflicts (.deliver call))
    (hrequest : s.requests[call]? = some ⟨src, i, .appendEntries request⟩)
    (hhandle : (s.nodes i).handleAppendEntries request = some (n, response)) :
    Replicas.Step LogEntry.term cfg.members.toFinset s.replicas
      (s.after i
        { node := n
          activity := .idle
          replies := [⟨call, .appendEntries response⟩]
          events := Cluster.appendEvents i n request response }).replicas := by
  have hn : Matching s.history i (s.nodes i) := hm.node i
  obtain ⟨c, E, log, hsnap, hled, hE, hcanon, -⟩ :=
    hr.request _ (List.mem_of_getElem? hrequest) request rfl
  have hconf : Conforms LogEntry.term (canon s.history) log :=
    (hi.canon_conforms request.term).initial hcanon
  rcases accept_cases hn hsnap hconf hhandle with
    ⟨hrefused, hsame⟩ | ⟨haccepted, haccepts⟩
  · refine replicas_advance hsame.log hsame.term_le ?_
    simp only [Cluster.appendEvents, hrefused]
    rfl
  · have hfacts : facts (Cluster.appendEvents i n request response) =
        [.accepted i request.term log] := by
      simp only [Cluster.appendEvents, haccepted, if_true, haccepts.take]
      rfl
    rw [replicas_after, hfacts]
    show Replicas.Step _ _ _ (s.replicas.set i n.currentTerm n.log _)
    rw [haccepts.term_eq]
    -- the log becomes what the leader sent, or begins with it already
    rcases haccepts.log with ⟨hne, hlog⟩ | ⟨hlog, hpre⟩
    · rw [hlog]
      refine .replace i c request.term E log haccepts.term_le (mem_facts.mpr hled) hE
        hcanon fun hpre => ?_
      exact log_eq_of_erasesConflicts herases hrequest haccepts.term_le haccepts.consistent hsnap
        hne hpre
    · rw [hlog]
      exact .keep i c request.term E log haccepts.term_le (mem_facts.mpr hled) hE hcanon
        hpre

/-- **Every step of the cluster is a step of the protocol.** -/
theorem replicas_step {a : Cluster.Action} {e : Cluster.Effect} (hb : (ballots cfg).Hold s)
    (he : Elections cfg s.history) (hm : matching.Hold s) (hr : (replication cfg).Hold s)
    (hi : s.replicas.Inv LogEntry.term cfg.members.toFinset) (hguard : s.FollowsRaft a)
    (hstep : Cluster.Step cfg s a i e) :
    Replicas.Step LogEntry.term cfg.members.toFinset s.replicas (s.after i e).replicas := by
  obtain ⟨⟨hfits, hremembered, hwins⟩, -, herases, -⟩ := hguard
  obtain ⟨hvoter, hpolling⟩ := hb.node i
  have hn : Matching s.history i (s.nodes i) := hm.node i
  cases hstep with
  | electionTimeout i hmem hidle hrole =>
    obtain ⟨hterm, -⟩ := hvoter.currentTerm_startElection hfits
    rw [replicas_after]
    refine .vote i i _ ?_ fun c log hlog => ?_
    · show (s.nodes i).currentTerm ≤ (s.nodes i).startElection.1.currentTerm
      omega
    · have hle : (s.nodes i).startElection.1.currentTerm ≤ (s.nodes i).currentTerm :=
        hvoter.voted_le _ c ⟨log, mem_facts.mp hlog⟩
      omega
  | winElection i request votes hact hwin =>
    rw [hact] at hpolling
    obtain ⟨voters, hcard, hpoll⟩ := hpolling
    -- the poll was for the term the node is in now, so its votes are for this office
    have hterm : (s.nodes i).currentTerm = request.term := by
      simp only [Cluster.WinsItsTerm, hact] at hwins
      exact hwins hwin
    rw [replicas_after]
    refine .win i voters ?_ (hpoll.isMajority hvoter (hcard ▸ hwin)) (fun v hv => ?_)
        fun log hlog => ?_
    · exact lt_of_lt_of_le hpoll.term_pos hpoll.term_le
    · obtain ⟨log, hlog, hup⟩ := hpoll.exists_voted hv
      rw [← hterm] at hlog
      exact ⟨log, mem_facts.mpr hlog, hup⟩
    · have hlt := hpoll.fresh _ log (mem_facts.mp hlog)
      have hle := hpoll.term_le
      have hsame : s.replicas.terms i = (s.nodes i).currentTerm := rfl
      omega
  | propose i operation entry acknowledged hmem hidle hrole hterm hindex =>
    obtain ⟨hlog, log, hled⟩ := hn.leader hrole
    rw [replicas_after]
    have hfacts : facts (Cluster.proposeEvents i acknowledged ((s.nodes i).log.length + 1) entry) =
        [.proposed i entry] := by
      cases acknowledged <;> rfl
    rw [hfacts]
    exact .propose i entry hterm ⟨log, mem_facts.mpr hled⟩ hlog
  | deliverVote call src i request n response hrequest hidle hhandle =>
    exact replicas_step_vote hvoter he hremembered hrequest hhandle
  | deliverAppend call src i request n response hrequest hidle hhandle =>
    exact replicas_step_append hm hr hi herases hrequest hhandle
  | receiveVote i reply request remaining votes call response hact hreply =>
    have hsame : SameLog (s.nodes i) ((s.nodes i).handleVoteReply response).1 :=
      SameLog.handleVoteReply response
    exact replicas_advance hsame.log hsame.term_le rfl
  | receiveAppend i reply next call peer response hact hreply hpeer =>
    obtain ⟨hlog, hterm⟩ := (s.nodes i).log_handleAppendReply peer response
    exact replicas_advance hlog hterm rfl
  | applyCommitted i hact =>
    obtain ⟨applied, hnode⟩ := (s.nodes i).applyCommittedEntries_node
    refine replicas_advance ?_ ?_ ?_
    · simp only [hnode]
    · simp only [hnode, le_refl]
    · rw [facts, List.filterMap_eq_nil_iff]
      intro ev hev
      obtain ⟨p, -, rfl⟩ := List.mem_map.mp hev
      rfl
  | sendRequestVote | loseVote | failElection | startHeartbeat | sendAppendEntries | loseAppend
  | finishHeartbeat | refuse => exact replicas_advance rfl (le_refl _) rfl

end Refinement
