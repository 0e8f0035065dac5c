import RpcFramework.Raft.Replication

/-!
# Committed entries

What a node commits was chosen: a leader commits what a majority acknowledged to it in its
term, and a follower takes over the commit index of a leader for the log it accepted from
it.  Chosen logs agree, so nodes apply the same entries, and a log that is replaced keeps
what was committed.

## Main definitions

* `StateMachineSafe` — nodes that apply an entry of the same index apply the same entry.
* `CommittedPrefixStable` — what a node has committed stays in its log.

## Main results

* `chosen_of_majority` — what a leader commits was chosen.
* `replication_after`, `followsRaft_exec` — the invariants hold along every run.
* `cluster_stateMachineSafe` — **state machine safety.**
* `cluster_committedPrefixStable` — **committed entries stay.**
-/

open Rpc

section Methods

variable {cfg : ClusterConfig} {h : List Event} {i : Bytes} {n n' : RaftNode}

theorem Committed.of_sameLog (hn : Committed cfg h n) (hsame : SameLog n n') :
    Committed cfg h n' where
  applied_nonneg := by rw [hsame.lastApplied]; exact hn.applied_nonneg
  applied_le := by rw [hsame.lastApplied, hsame.commitIndex]; exact hn.applied_le
  commit_le := by rw [hsame.commitIndex, hsame.log]; exact hn.commit_le
  certified := by
    rw [hsame.commitIndex, hsame.log]
    exact Replicas.Certified.mono_term hn.certified hsame.term_le

theorem Accounted.of_sameLog (hn : Accounted h n) (hsame : SameLog n n') : Accounted h n' where
  length := by rw [hsame.matchIndex, hsame.peers]; exact hn.length
  acked hlead k p m hp hm := by
    obtain ⟨hlead', hterm⟩ := hsame.role hlead
    rw [hsame.peers] at hp
    rw [hsame.matchIndex] at hm
    rw [hsame.log, hterm]
    exact hn.acked hlead' k p m hp hm

/-- A node that is no leader has no account to give. -/
theorem Accounted.of_role (hn : Accounted h n) (hrole : n'.role ≠ .leader)
    (hpeers : n'.peers = n.peers) (hmatch : n'.matchIndex = n.matchIndex) : Accounted h n' where
  length := by rw [hmatch, hpeers]; exact hn.length
  acked hlead := absurd hlead hrole

/-- A new leader has no acknowledgements. -/
theorem Accounted.becomeLeader (hn : Accounted h n) : Accounted h n.becomeLeader where
  length := (List.length_map _).trans hn.length
  acked _ k p m _ hm := by
    have hmem : m ∈ n.matchIndex.map fun _ => 0 := List.mem_of_getElem? hm
    obtain ⟨m', -, rfl⟩ := List.mem_map.mp hmem
    exact ⟨Int.natCast_nonneg _, fun hlt => absurd hlt (lt_irrefl _)⟩

/-- An entry at the end of the log is behind everything that was committed. -/
theorem Committed.concat (hn : Committed cfg h n) (entry : LogEntry) :
    Committed cfg h { n with log := n.log ++ [entry] } where
  applied_nonneg := hn.applied_nonneg
  applied_le := hn.applied_le
  commit_le := by
    have hcommit := hn.commit_le
    simp only [List.length_append]
    omega
  certified := by
    have hcommit := hn.commit_le
    show Certified cfg h n.currentTerm ((n.log ++ [entry]).take n.commitIndex.toNat)
    rw [List.take_append_of_le_length (by omega)]
    exact hn.certified

/-- It is behind everything a peer acknowledged, too. -/
theorem Accounted.concat (hn : Accounted h n) (entry : LogEntry) :
    Accounted h { n with log := n.log ++ [entry] } where
  length := hn.length
  acked hlead k p m hp hm := by
    obtain ⟨hle, hack⟩ := hn.acked hlead k p m hp hm
    refine ⟨?_, fun hpos => ?_⟩
    · simp only [List.length_append]
      omega
    · show Acked h p.nodeId n.currentTerm ((n.log ++ [entry]).take m.toNat)
      rw [List.take_append_of_le_length (by omega)]
      exact hack hpos

/-! ### Counting acknowledgements -/

/-- The ids of the peers that, by the leader's account, have the entry at `index`. -/
def RaftNode.replicasOf (n : RaftNode) (index : ℤ) : List Bytes :=
  ((n.peers.zip n.matchIndex).filter fun pm => decide (index ≤ pm.2)).map fun pm => pm.1.nodeId

theorem RaftNode.length_replicasOf (hlen : n.matchIndex.length = n.peers.length) (index : ℤ) :
    (n.replicasOf index).length + 1 = n.replicaCount index := by
  have hsnd : (n.peers.zip n.matchIndex).map Prod.snd = n.matchIndex :=
    List.map_snd_zip (Nat.le_of_eq hlen)
  rw [RaftNode.replicasOf, List.length_map, ← List.countP_eq_length_filter, RaftNode.replicaCount]
  conv_rhs => rw [← hsnd, List.countP_map]
  rfl

theorem RaftNode.nodup_replicasOf (hlen : n.matchIndex.length = n.peers.length)
    (hnodup : (n.peers.map RaftPeer.nodeId).Nodup) (index : ℤ) : (n.replicasOf index).Nodup := by
  have hfst : (n.peers.zip n.matchIndex).map (fun pm => pm.1.nodeId) =
      n.peers.map RaftPeer.nodeId := by
    have hzip := List.map_fst_zip (Nat.le_of_eq hlen.symm)
    conv_rhs => rw [← hzip, List.map_map]
    rfl
  have hsub : (n.replicasOf index).Sublist
      ((n.peers.zip n.matchIndex).map fun pm => pm.1.nodeId) :=
    List.filter_sublist.map _
  rw [hfst] at hsub
  exact hnodup.sublist hsub

theorem RaftNode.mem_replicasOf {index : ℤ} {j : Bytes} (hj : j ∈ n.replicasOf index) :
    ∃ (k : ℕ) (p : RaftPeer) (m : ℤ), n.peers[k]? = some p ∧ n.matchIndex[k]? = some m ∧
        index ≤ m ∧ p.nodeId = j := by
  obtain ⟨⟨p, m⟩, hmem, rfl⟩ := List.mem_map.mp hj
  obtain ⟨hzip, hle⟩ := List.mem_filter.mp hmem
  obtain ⟨k, hk⟩ := List.mem_iff_getElem?.mp hzip
  rw [List.getElem?_zip_eq_some] at hk
  exact ⟨k, p, m, hk.1, hk.2, of_decide_eq_true hle, rfl⟩

/-- **What a leader commits was chosen**: an entry of its term that a majority has. -/
theorem chosen_of_majority (hvoter : Voter cfg h i n) (hmatching : Matching h i n)
    (hacc : Accounted h n) (hrole : n.role = .leader) {index : ℕ}
    (hterm : (n.log[index]?).map LogEntry.term = some n.currentTerm)
    (hmajority : n.majority ≤ n.replicaCount (index + 1 : ℕ)) :
    Chosen cfg h n.currentTerm (n.log.take (index + 1)) := by
  obtain ⟨entry, hentry, hterm⟩ := Option.map_eq_some_iff.mp hterm
  obtain ⟨hlt, -⟩ := List.getElem?_eq_some_iff.mp hentry
  obtain ⟨hlog, E, hled⟩ := hmatching.leader hrole
  have hmem : i ∈ cfg.members := hvoter.elected_mem _ E hled
  have hids : n.peers.map RaftPeer.nodeId = cfg.peers i := by
    rw [hvoter.peers, cfg.map_nodeId_peerList]
  have hnodup : (n.peers.map RaftPeer.nodeId).Nodup := by
    rw [hids]
    exact (cfg.peers_perm i hmem).nodup_iff.mpr (cfg.nodup.erase i)
  -- the peers that have it, by the leader's account
  have hpeer : ∀ j ∈ n.replicasOf (index + 1 : ℕ), j ∈ cfg.members ∧ j ≠ i ∧
      Acked h j n.currentTerm (n.log.take (index + 1)) := by
    intro j hj
    obtain ⟨k, p, m, hp, hm, hle, rfl⟩ := RaftNode.mem_replicasOf hj
    have hin : p.nodeId ∈ cfg.peers i := by
      rw [← hids]
      exact List.mem_map_of_mem (List.mem_of_getElem? hp)
    rw [ClusterConfig.mem_peers hmem] at hin
    obtain ⟨-, hack⟩ := hacc.acked hrole k p m hp hm
    refine ⟨hin.1, hin.2, Replicas.Acked.initial (hack (by omega)) ?_⟩
    exact List.take_prefix_take_left (by omega)
  have hnotin : i ∉ (n.replicasOf (index + 1 : ℕ)).toFinset := by
    intro hin
    exact (hpeer i (List.mem_toFinset.mp hin)).2.1 rfl
  refine ⟨⟨entry, ?_, hterm⟩, insert i (n.replicasOf (index + 1 : ℕ)).toFinset, ⟨?_, ?_⟩, ?_⟩
  · rw [List.getLast?_take, if_neg (Nat.succ_ne_zero index)]
    simp [hentry]
  · intro j hj
    rcases Finset.mem_insert.mp hj with rfl | hj
    · exact List.mem_toFinset.mpr hmem
    · exact List.mem_toFinset.mpr (hpeer j (List.mem_toFinset.mp hj)).1
  · rw [Finset.card_insert_of_notMem hnotin,
      List.toFinset_card_of_nodup (RaftNode.nodup_replicasOf hacc.length hnodup _),
      RaftNode.length_replicasOf hacc.length, List.toFinset_card_of_nodup cfg.nodup]
    have hlen := ClusterConfig.length_peerList hmem
    rw [RaftNode.majority, hvoter.peers] at hmajority
    omega
  · intro j hj
    rcases Finset.mem_insert.mp hj with rfl | hj
    · refine Or.inr ⟨⟨E, mem_facts.mpr hled⟩, ?_⟩
      rw [hlog]
      exact List.take_prefix _ _
    · exact (hpeer j (List.mem_toFinset.mp hj)).2.2

/-- Moving the commit index keeps it in the log, and what is before it settled. -/
theorem Committed.updateCommitIndex (hn : Committed cfg h n) (hvoter : Voter cfg h i n)
    (hmatching : Matching h i n) (hacc : Accounted h n) :
    Committed cfg h n.updateCommitIndex ∧ n.commitIndex ≤ n.updateCommitIndex.commitIndex := by
  unfold RaftNode.updateCommitIndex
  split
  · next hrole =>
    rcases n.commitLoop_cases n.log.length with heq | ⟨index, hlt, heq, hgt, hterm, hmajority⟩
    · rw [heq]
      exact ⟨⟨hn.applied_nonneg, hn.applied_le, hn.commit_le, hn.certified⟩, le_refl _⟩
    · rw [heq]
      have happlied := hn.applied_le
      refine ⟨⟨hn.applied_nonneg, ?_, ?_, ?_⟩, le_of_lt hgt⟩
      · simp only
        omega
      · simp only
        omega
      · refine Or.inr ⟨n.currentTerm, _, le_refl _,
          chosen_of_majority hvoter hmatching hacc hrole hterm hmajority, ?_⟩
        simp only [Int.toNat_natCast]
        exact List.prefix_refl _
  · exact ⟨hn, le_refl _⟩

end Methods

/-! ### Growth of the history -/

section Growth

variable {cfg : ClusterConfig} {s : Cluster} {i : Bytes} {e : Cluster.Effect} {n : RaftNode}

theorem Committed.after (hi : s.replicas.Inv LogEntry.term cfg.members.toFinset)
    (hrep : Replicas.Step LogEntry.term cfg.members.toFinset s.replicas (s.after i e).replicas)
    (hn : Committed cfg s.history n) : Committed cfg (s.after i e).history n where
  applied_nonneg := hn.applied_nonneg
  applied_le := hn.applied_le
  commit_le := hn.commit_le
  certified := hrep.certified hi hn.certified

theorem Accounted.after (hi : s.replicas.Inv LogEntry.term cfg.members.toFinset)
    (hrep : Replicas.Step LogEntry.term cfg.members.toFinset s.replicas (s.after i e).replicas)
    (hn : Accounted s.history n) : Accounted (s.after i e).history n where
  length := hn.length
  acked hlead k p m hp hm :=
    (hn.acked hlead k p m hp hm).imp_right fun hack hpos => hrep.acked hi (hack hpos)

theorem Waiting.after {j : Bytes} {a : Activity} (hn : Waiting s.record j n a) :
    Waiting (s.after i e).record j n a := by
  cases a with
  | awaitingAppend next call =>
    obtain ⟨peer, request, hpeer, hcall, hsnap⟩ := hn
    exact ⟨peer, request, hpeer, s.requests_after_of_some i e hcall, hsnap⟩
  | idle | electing | awaitingVote | heartbeating => trivial

/-- What is there outlasts a step of the protocol. -/
theorem replication_survive (hi : s.replicas.Inv LogEntry.term cfg.members.toFinset)
    (hrep : Replicas.Step LogEntry.term cfg.members.toFinset s.replicas (s.after i e).replicas) :
    (replication cfg).Survive i s.record (s.after i e).record where
  node j n a _ hn := ⟨hn.1.after hi hrep, hn.2.1.after hi hrep, hn.2.2.after⟩
  request env henv request hbody := by
    obtain ⟨c, E, log, hsnap, hled, hE, hcanon, hle, hcert⟩ := henv request hbody
    exact ⟨c, E, log, hsnap, s.mem_history_after i e hled, hE,
      hcanon.trans (hrep.canon_prefix hi request.term), hle, hrep.certified hi hcert⟩
  reply rep hr response hbody hsuccess := by
    obtain ⟨src, dst, request, log, hcall, hmem, hlen⟩ := hr response hbody hsuccess
    exact ⟨src, dst, request, log, s.requests_after_of_some i e hcall,
      s.mem_history_after i e hmem, hlen⟩
  event ev hev j index entry heq := by
    obtain ⟨hpos, T, log, hchosen, hget⟩ := hev j index entry heq
    exact ⟨hpos, T, log, hrep.chosen hi hchosen, hget⟩

end Growth

/-! ### The steps -/

/-- The commit index has not gone back, and what is before it is still in the log. -/
structure Extends (n n' : RaftNode) : Prop where
  commit_le : n.commitIndex ≤ n'.commitIndex
  log : n.log.take n.commitIndex.toNat <+: n'.log

section Steps

variable {cfg : ClusterConfig} {s : Cluster} {i : Bytes}

theorem Extends.of_sameLog {n n' : RaftNode} (hsame : SameLog n n') : Extends n n' where
  commit_le := by rw [hsame.commitIndex]
  log := by rw [hsame.log]; exact List.take_prefix _ _

/-- **Accepting a request** from a leader keeps what was committed, and commits what the
leader has. -/
theorem accept_committed {n : RaftNode} {c : Bytes} {request : AppendEntriesRequest}
    {E log : List LogEntry} (hi : s.replicas.Inv LogEntry.term cfg.members.toFinset)
    (hcom : Committed cfg s.history (s.nodes i)) (haccepts : Accepts log request (s.nodes i) n)
    (hled : .elected c request.term E ∈ s.history) (hE : E <+: log)
    (hcanon : log <+: canon s.history request.term) (hle : request.leaderCommit ≤ log.length)
    (hcert : Certified cfg s.history request.term (log.take request.leaderCommit.toNat))
    (hkeep : request.entries ≠ [] → log <+: (s.nodes i).log → (s.nodes i).log = log) :
    Committed cfg s.history n ∧ Extends (s.nodes i) n := by
  have hpre : (s.nodes i).log.take (s.nodes i).commitIndex.toNat <+: n.log := by
    rcases haccepts.log with ⟨hne, hlog⟩ | ⟨hlog, -⟩
    · rw [hlog]
      exact hi.certified_prefix (j := i) hcom.certified (List.take_prefix _ _) haccepts.term_le
        (mem_facts.mpr hled) hE hcanon (hkeep hne)
    · rw [hlog]
      exact List.take_prefix _ _
  have hlogpre : log <+: n.log := by
    rw [← haccepts.take]
    exact List.take_prefix _ _
  have hlen := hpre.length_le
  have hlen' := hlogpre.length_le
  have hnonneg := hcom.applied_nonneg
  have happlied := hcom.applied_le
  have hcommit := hcom.commit_le
  rw [List.length_take, min_eq_left (by omega)] at hlen
  have hindex := haccepts.commitIndex
  have hlastApplied := haccepts.lastApplied
  -- the commit index follows the leader's, or stays where it is
  by_cases hlt : (s.nodes i).commitIndex < request.leaderCommit
  · rw [if_pos hlt, min_eq_left (by omega)] at hindex
    refine ⟨⟨by omega, by omega, by omega, ?_⟩, by omega, hpre⟩
    have htake : n.log.take request.leaderCommit.toNat =
        log.take request.leaderCommit.toNat := by
      obtain ⟨r, hr⟩ := hlogpre
      rw [← hr, List.take_append_of_le_length (by omega)]
    rw [hindex, haccepts.term_eq, htake]
    exact hcert
  · rw [if_neg hlt] at hindex
    refine ⟨⟨by omega, by omega, by omega, ?_⟩, by omega, hpre⟩
    have htake : n.log.take (s.nodes i).commitIndex.toNat =
        (s.nodes i).log.take (s.nodes i).commitIndex.toNat := by
      have heq := List.prefix_iff_eq_take.mp hpre
      rw [List.length_take, min_eq_left (by omega)] at heq
      exact heq.symm
    rw [hindex, haccepts.term_eq, htake]
    exact Replicas.Certified.mono_term hcom.certified haccepts.term_le

/-- The leader's account after a peer reported success on the log that was sent to it. -/
theorem Accounted.report {h : List Event} {n : RaftNode} {peer : RaftPeer} {m : ℤ} {k : ℕ}
    (hn : Accounted h n) (next : ℤ)
    (hfind : n.peers.findIdx? (fun p => p.nodeId == peer.nodeId) = some k)
    (hm : m ≤ n.log.length)
    (hack : n.role = .leader → Acked h peer.nodeId n.currentTerm n.log) :
    Accounted h
      { n with nextIndex := n.nextIndex.set k next, matchIndex := n.matchIndex.set k m } where
  length := (List.length_set ..).trans hn.length
  acked hrole k' p m' hp hm' := by
    by_cases hk : k = k'
    · -- the peer that reported
      subst hk
      have hlt : k < n.matchIndex.length := by
        rw [hn.length]
        exact (List.getElem?_eq_some_iff.mp hp).1
      obtain rfl : m = m' := by
        rw [List.getElem?_set_self hlt] at hm'
        exact Option.some.inj hm'
      obtain ⟨hlt', hsame, -⟩ := List.findIdx?_eq_some_iff_getElem.mp hfind
      have hp' : n.peers[k] = p := (List.getElem?_eq_some_iff.mp hp).2
      rw [hp', beq_iff_eq] at hsame
      refine ⟨hm, fun _ => ?_⟩
      rw [hsame]
      exact Replicas.Acked.initial (hack hrole) (List.take_prefix _ _)
    · have hm'' : n.matchIndex[k']? = some m' := by
        rw [← hm', List.getElem?_set_ne hk]
      exact hn.acked hrole k' p m' hp hm''

/-- What a peer's report of success is about: the leader's own log. -/
theorem acked_of_report {reply next call : ℕ} {peer : RaftPeer}
    {response : AppendEntriesResponse} (hm : matching.Hold s) (hr : (replication cfg).Hold s)
    (hi : s.replicas.Inv LogEntry.term cfg.members.toFinset)
    (hact : s.activity i = .awaitingAppend next call)
    (hreply : s.replies[reply]? = some ⟨call, .appendEntries response⟩)
    (hpeer : (s.nodes i).peers[next]? = some peer) (hsuccess : response.success = true)
    (hrole : (s.nodes i).role = .leader) :
    Acked s.history peer.nodeId (s.nodes i).currentTerm (s.nodes i).log := by
  have hwait : Waiting s.record i (s.nodes i) (s.activity i) := (hr.node i).2.2
  rw [hact] at hwait
  obtain ⟨peer', request, hpeer', hcall, hsnap, hterm⟩ := hwait
  obtain ⟨src, dst, request', log, hcall', haccepted, hlen⟩ :=
    hr.reply _ (List.mem_of_getElem? hreply) response rfl hsuccess
  rw [hcall] at hcall'
  obtain ⟨-, hdst, hbody⟩ := Envelope.mk.inj (Option.some.inj hcall')
  obtain rfl := Request.appendEntries.inj hbody
  have hsame : peer' = peer := Option.some.inj (hpeer'.symm.trans hpeer)
  rw [← hdst, hsame, hterm] at haccepted
  have hack : Acked s.history peer.nodeId (s.nodes i).currentTerm log :=
    Or.inl ⟨log, mem_facts.mpr haccepted, List.prefix_refl _⟩
  -- what the peer accepted is as long as the log, and the beginning of it
  have hpre : log <+: (s.nodes i).log := by
    rw [((hm.node i).leader hrole).1]
    exact hi.acked_canon _ _ _ hack
  have hle := hpre.length_le
  rw [hsnap.entries, List.length_drop] at hlen
  have heq : log = (s.nodes i).log := hpre.eq_of_length (by omega)
  rw [← heq]
  exact hack

/-- Where a node's commit index is, and what its leader's account is worth, after every
step; and what it had committed is still there. -/
theorem committed_step {a : Cluster.Action} {e : Cluster.Effect} (hb : (ballots cfg).Hold s)
    (hm : matching.Hold s) (hr : (replication cfg).Hold s)
    (hi : s.replicas.Inv LogEntry.term cfg.members.toFinset) (hguard : s.FollowsRaft a)
    (hstep : Cluster.Step cfg s a i e) :
    Committed cfg s.history e.node ∧ Accounted s.history e.node ∧ Extends (s.nodes i) e.node := by
  obtain ⟨⟨hfits, -⟩, -, herases, hmatches⟩ := hguard
  obtain ⟨hvoter, -⟩ := hb.node i
  have hn : Matching s.history i (s.nodes i) := hm.node i
  obtain ⟨hcom, hacc, -⟩ := hr.node i
  -- most steps leave the log and the indices alone
  have hquiet : ∀ n, SameLog (s.nodes i) n →
      Committed cfg s.history n ∧ Accounted s.history n ∧ Extends (s.nodes i) n :=
    fun n hsame => ⟨hcom.of_sameLog hsame, hacc.of_sameLog hsame, .of_sameLog hsame⟩
  cases hstep with
  | electionTimeout i hmem hidle hrole =>
    obtain ⟨hterm, -⟩ := hvoter.currentTerm_startElection hfits
    refine hquiet _ ⟨rfl, rfl, rfl, rfl, rfl, ?_, fun hlead => ?_⟩
    · show (s.nodes i).currentTerm ≤ (s.nodes i).startElection.1.currentTerm
      omega
    · simp [RaftNode.startElection, RaftNode.becomeCandidate] at hlead
  | winElection i request votes hact hwin =>
    exact ⟨⟨hcom.applied_nonneg, hcom.applied_le, hcom.commit_le, hcom.certified⟩,
      hacc.becomeLeader, le_refl _, List.take_prefix _ _⟩
  | failElection i request votes hact => exact hquiet _ (.becomeFollower (le_refl _) [])
  | deliverVote call src i request n response hrequest hidle hhandle =>
    exact hquiet _ (.handleRequestVote hhandle)
  | receiveVote i reply request remaining votes call response hact hreply =>
    exact hquiet _ (.handleVoteReply response)
  | sendRequestVote | loseVote | startHeartbeat | sendAppendEntries | loseAppend
  | finishHeartbeat | refuse => exact hquiet _ .refl
  | deliverAppend call src i request n response hrequest hidle hhandle =>
    obtain ⟨c, E, log, hsnap, hled, hE, hcanon, hle, hcert⟩ :=
      hr.request _ (List.mem_of_getElem? hrequest) request rfl
    have hconf : Conforms LogEntry.term (canon s.history) log :=
      (hi.canon_conforms request.term).initial hcanon
    rcases accept_cases hn hsnap hconf hhandle with ⟨-, hsame⟩ | ⟨-, haccepts⟩
    · exact hquiet n hsame
    · have hkeep : request.entries ≠ [] → log <+: (s.nodes i).log → (s.nodes i).log = log :=
        fun hne => log_eq_of_erasesConflicts herases hrequest haccepts.term_le
          haccepts.consistent hsnap hne
      obtain ⟨hcom', hext⟩ := accept_committed hi hcom haccepts hled hE hcanon hle hcert hkeep
      refine ⟨hcom', hacc.of_role ?_ haccepts.peers haccepts.matchIndex, hext⟩
      rw [haccepts.role]
      simp
  | receiveAppend i reply next call peer response hact hreply hpeer =>
    simp only [Cluster.MatchesLog, hreply] at hmatches
    rcases (s.nodes i).handleAppendReply_cases peer response with
      ⟨hlt, heq⟩ | ⟨-, ⟨k, next', -, heq⟩ | ⟨hsuccess, k, hfind, heq⟩⟩
    · simp only [heq]
      exact hquiet _ (.becomeFollower (le_of_lt hlt) [])
    · simp only [heq]
      exact hquiet _ ⟨rfl, rfl, rfl, rfl, rfl, le_refl _, fun hlead => ⟨hlead, rfl⟩⟩
    · simp only [heq]
      -- the peer reports on the log it was sent, which the leader still has
      have hacc' := hacc.report (response.matchIndex + 1) hfind (hmatches hsuccess)
        (acked_of_report hm hr hi hact hreply hpeer hsuccess)
      have hcom' : Committed cfg s.history
          { s.nodes i with
            nextIndex := (s.nodes i).nextIndex.set k (response.matchIndex + 1)
            matchIndex := (s.nodes i).matchIndex.set k response.matchIndex } :=
        ⟨hcom.applied_nonneg, hcom.applied_le, hcom.commit_le, hcom.certified⟩
      obtain ⟨hcom'', hle⟩ := hcom'.updateCommitIndex (hvoter.congr rfl rfl rfl rfl rfl)
        (hn.congr rfl fun hlead => ⟨hlead, rfl⟩) hacc'
      obtain ⟨index, hindex⟩ := RaftNode.updateCommitIndex_node
        { s.nodes i with
          nextIndex := (s.nodes i).nextIndex.set k (response.matchIndex + 1)
          matchIndex := (s.nodes i).matchIndex.set k response.matchIndex }
      rw [hindex] at hcom'' hle ⊢
      exact ⟨hcom'', ⟨hacc'.length, hacc'.acked⟩, hle, List.take_prefix _ _⟩
  | propose i operation entry acknowledged hmem hidle hrole hterm hindex =>
    exact ⟨hcom.concat entry, hacc.concat entry, le_refl _,
      (List.take_prefix _ _).trans (List.prefix_append _ _)⟩
  | applyCommitted i hact =>
    obtain ⟨applied, hnode, hlo, hhi, -⟩ :=
      RaftNode.applyCommittedEntries_spec hcom.applied_nonneg hcom.applied_le
    simp only [hnode]
    exact ⟨⟨le_trans hcom.applied_nonneg hlo, hhi, hcom.commit_le, hcom.certified⟩,
      ⟨hacc.length, hacc.acked⟩, le_refl _, List.take_prefix _ _⟩

/-- An entry that is committed was chosen, in a term the node has seen. -/
theorem Committed.chosen {h : List Event} {n : RaftNode} (hn : Committed cfg h n) {index : ℤ}
    {entry : LogEntry} (hpos : 0 < index) (hle : index ≤ n.commitIndex)
    (hget : n.log[(index - 1).toNat]? = some entry) :
    ∃ T log, T ≤ n.currentTerm ∧ Chosen cfg h T log ∧ log[(index - 1).toNat]? = some entry := by
  have htake : (n.log.take n.commitIndex.toNat)[(index - 1).toNat]? = some entry := by
    rw [List.getElem?_take_of_lt (by omega)]
    exact hget
  rcases hn.certified with hnil | ⟨T, log, hle, hchosen, hpre⟩
  · rw [hnil] at htake
    simp at htake
  · exact ⟨T, log, hle, hchosen, getElem?_mono hpre htake⟩

/-- A leader sends its own log, and what it has committed of it. -/
theorem fromLeader_of_leader {next : ℕ} {request : AppendEntriesRequest}
    (hi : s.replicas.Inv LogEntry.term cfg.members.toFinset)
    (hn : Matching s.history i (s.nodes i)) (hcom : Committed cfg s.history (s.nodes i))
    (hrole : (s.nodes i).role = .leader)
    (hrequest : (s.nodes i).appendEntriesRequest next = some request) :
    FromLeader cfg s.history request := by
  obtain ⟨hsnap, hterm, hleaderCommit⟩ := RaftNode.appendEntriesRequest_snapshot hrequest
  obtain ⟨hlog, E, hled⟩ := hn.leader hrole
  refine ⟨i, E, (s.nodes i).log, hsnap, ?_, ?_, ?_, ?_, ?_⟩
  · rw [hterm]
    exact hled
  · rw [hlog]
    exact hi.elected_canon i _ E (mem_facts.mpr hled)
  · rw [hterm]
    exact ⟨[], (List.append_nil _).trans hlog⟩
  · rw [hleaderCommit]
    exact hcom.commit_le
  · rw [hleaderCommit, hterm]
    exact hcom.certified

/-- A report of success is on what was just written down as accepted. -/
theorem appendReply_handle {call : ℕ} {src : Bytes} {request : AppendEntriesRequest}
    {n : RaftNode} {response : AppendEntriesResponse} (hm : matching.Hold s)
    (hr : (replication cfg).Hold s)
    (hi : s.replicas.Inv LogEntry.term cfg.members.toFinset)
    (hrequest : s.requests[call]? = some ⟨src, i, .appendEntries request⟩)
    (hhandle : (s.nodes i).handleAppendEntries request = some (n, response)) :
    AppendReply
      (s.after i
        { node := n
          activity := .idle
          replies := [⟨call, .appendEntries response⟩]
          events := Cluster.appendEvents i n request response }).record
      ⟨call, .appendEntries response⟩ := by
  intro response' hbody hsuccess
  obtain rfl := Response.appendEntries.inj hbody
  obtain ⟨c, E, log, hsnap, -, -, hcanon, -⟩ :=
    hr.request _ (List.mem_of_getElem? hrequest) request rfl
  have hconf : Conforms LogEntry.term (canon s.history) log :=
    (hi.canon_conforms request.term).initial hcanon
  rcases accept_cases (hm.node i) hsnap hconf hhandle with ⟨hrefused, -⟩ | ⟨-, haccepts⟩
  · rw [hrefused] at hsuccess
    exact absurd hsuccess (by simp)
  · refine ⟨src, i, request, log, s.requests_after_of_some i _ hrequest, ?_, haccepts.length⟩
    refine List.mem_append_left _ ?_
    simp only [Cluster.appendEvents, hsuccess, if_true, haccepts.take]
    exact List.mem_singleton_self _

/-- **The invariant holds after every step.** -/
theorem replication_after {a : Cluster.Action} {e : Cluster.Effect} (hb : (ballots cfg).Hold s)
    (he : Elections cfg s.history) (hm : matching.Hold s) (hr : (replication cfg).Hold s)
    (hi : s.replicas.Inv LogEntry.term cfg.members.toFinset) (hguard : s.FollowsRaft a)
    (hstep : Cluster.Step cfg s a i e) : (replication cfg).Hold (s.after i e) := by
  have hrep := replicas_step hb he hm hr hi hguard hstep
  have hsurvive := replication_survive (i := i) (e := e) hi hrep
  obtain ⟨hcom, hacc, -⟩ := committed_step hb hm hr hi hguard hstep
  obtain ⟨hcom₀, -, hwait₀⟩ := hr.node i
  have hn : Matching s.history i (s.nodes i) := hm.node i
  -- a step that leaves the node without a call to wait for, and brings nothing but its node
  have hquiet : Waiting (s.after i e).record i e.node e.activity → e.requests = [] →
      e.replies = [] → (∀ ev ∈ e.events, ∀ j index entry, ev ≠ .applied j index entry) →
        (replication cfg).Hold (s.after i e) := by
    intro hwait hrequests hreplies hevents
    refine hr.after hsurvive ⟨⟨hcom.after hi hrep, hacc.after hi hrep, hwait⟩, ?_, ?_, ?_⟩
    · simp [hrequests]
    · simp [hreplies]
    · exact fun ev hev j index entry heq => absurd heq (hevents ev hev j index entry)
  cases hstep with
  | sendAppendEntries i next peer request hact hpeer hrequest =>
    have hrole : (s.nodes i).role = .leader := hguard.2.1
    obtain ⟨hsnap, hterm, -⟩ := RaftNode.appendEntriesRequest_snapshot hrequest
    refine hr.after hsurvive ⟨⟨hcom.after hi hrep, hacc.after hi hrep, ?_⟩, ?_, by simp, by simp⟩
    · exact ⟨peer, request, hpeer, by simp, hsnap, hterm⟩
    · intro env henv
      rw [List.mem_singleton.mp henv]
      refine hsurvive.request _ fun request' hbody => ?_
      obtain rfl := Request.appendEntries.inj hbody
      exact fromLeader_of_leader hi hn hcom₀ hrole hrequest
  | sendRequestVote i request peer remaining votes hact =>
    refine hr.after hsurvive
      ⟨⟨hcom.after hi hrep, hacc.after hi hrep, trivial⟩, ?_, by simp, by simp⟩
    intro env henv request' hbody
    rw [List.mem_singleton.mp henv] at hbody
    simp at hbody
  | deliverVote call src i request n response hrequest hidle hhandle =>
    refine hr.after hsurvive
      ⟨⟨hcom.after hi hrep, hacc.after hi hrep, trivial⟩, by simp, ?_, ?_⟩
    · intro rep hrep' response' hbody
      rw [List.mem_singleton.mp hrep'] at hbody
      simp at hbody
    · intro ev hev j index entry heq
      rw [(Cluster.mem_voteEvents hev).2] at heq
      simp at heq
  | deliverAppend call src i request n response hrequest hidle hhandle =>
    refine hr.after hsurvive
      ⟨⟨hcom.after hi hrep, hacc.after hi hrep, trivial⟩, by simp, ?_, ?_⟩
    · intro rep hrep'
      rw [List.mem_singleton.mp hrep']
      exact appendReply_handle hm hr hi hrequest hhandle
    · intro ev hev j index entry heq
      rw [(Cluster.mem_appendEvents hev).2] at heq
      simp at heq
  | applyCommitted i hact =>
    obtain ⟨applied, hnode, -, hhi, hentries⟩ :=
      RaftNode.applyCommittedEntries_spec hcom₀.applied_nonneg hcom₀.applied_le
    refine hr.after hsurvive
      ⟨⟨hcom.after hi hrep, hacc.after hi hrep, ?_⟩, by simp, by simp, ?_⟩
    · show Waiting _ i (s.nodes i).applyCommittedEntries.1 (s.activity i)
      cases hactivity : s.activity i with
      | awaitingAppend next call => exact absurd hactivity (hact next call)
      | idle | electing | awaitingVote | heartbeating => trivial
    · intro ev hev
      refine hsurvive.event ev fun j index entry heq => ?_
      -- what is applied is committed, and so was chosen
      obtain ⟨p, hp, rfl⟩ := List.mem_map.mp hev
      obtain ⟨-, rfl, rfl⟩ := Event.applied.inj heq
      obtain ⟨hlo, hle, hget⟩ := hentries p (List.mem_reverse.mp hp)
      have hnonneg := hcom₀.applied_nonneg
      obtain ⟨T, log, -, hchosen, hget'⟩ := hcom₀.chosen (by omega) (by omega) hget
      exact ⟨by omega, T, log, hchosen, hget'⟩
  | propose i operation entry acknowledged hmem hidle hrole hterm hindex =>
    refine hquiet trivial rfl rfl fun ev hev j index entry' heq => ?_
    rcases Cluster.mem_proposeEvents hev with ⟨-, h⟩ | h
    · rw [h] at heq
      simp at heq
    · rw [h] at heq
      simp at heq
  | electionTimeout | winElection | receiveVote | loseVote | failElection | startHeartbeat
  | receiveAppend | loseAppend | finishHeartbeat | refuse =>
    exact hquiet trivial rfl rfl (by simp)

theorem replication_start (cfg : ClusterConfig) : (replication cfg).Hold (Cluster.start cfg) where
  node i := by
    refine ⟨⟨le_refl _, le_refl _, le_refl _, Or.inl rfl⟩, ⟨?_, fun hlead => ?_⟩, trivial⟩
    · simp [Cluster.start, RaftNode.new]
    · simp [Cluster.start, RaftNode.new] at hlead
  request _ henv := absurd henv List.not_mem_nil
  reply _ hrep := absurd hrep List.not_mem_nil
  event _ hev := absurd hev List.not_mem_nil

/-- Everything that holds in a run that follows the protocol. -/
structure Sound (cfg : ClusterConfig) (s : Cluster) : Prop where
  ballots : (ballots cfg).Hold s
  elections : Elections cfg s.history
  matching : matching.Hold s
  replication : (replication cfg).Hold s
  replicas : s.replicas.Inv LogEntry.term cfg.members.toFinset

theorem sound_start (cfg : ClusterConfig) : Sound cfg (Cluster.start cfg) where
  ballots := ballots_start cfg
  elections := by
    refine ⟨?_, fun c T log hc => absurd hc List.not_mem_nil⟩
    rintro v T c c' ⟨log, hlog⟩
    exact absurd hlog List.not_mem_nil
  matching := matching_start cfg
  replication := replication_start cfg
  replicas := Replicas.inv_start

theorem Sound.after {a : Cluster.Action} {e : Cluster.Effect} (hs : Sound cfg s)
    (hguard : s.FollowsRaft a) (hstep : Cluster.Step cfg s a i e) : Sound cfg (s.after i e) := by
  have helections := elections_after hs.ballots hs.elections hguard.1 hstep
  refine ⟨ballots_after hs.ballots hguard.1.1 hstep, helections, ?_, ?_, ?_⟩
  · refine matching_after hs.ballots hs.matching ?_ hstep
    exact fun c c' T log log' hc hc' => helections.leader_unique hc hc'
  · exact replication_after hs.ballots hs.elections hs.matching hs.replication hs.replicas
      hguard hstep
  · exact hs.replicas.step (replicas_step hs.ballots hs.elections hs.matching hs.replication
      hs.replicas hguard hstep)

/-- **What holds along every run that follows the protocol.** -/
theorem sound_exec {guard : Cluster → Cluster.Action → Prop} [∀ s a, Decidable (guard s a)]
    (hguard : ∀ s a, guard s a → s.FollowsRaft a) {as : List Cluster.Action} {t : Cluster}
    (h : ((cluster cfg).restrict guard).exec (Cluster.start cfg) as = some t) : Sound cfg t := by
  refine System.exec_invariant (I := Sound cfg) ?_ (sound_start cfg) h
  intro s a t hs hst
  obtain ⟨hg, hnext⟩ := System.step_restrict.mp hst
  obtain ⟨i, e, hstep, rfl⟩ := Cluster.step_cases hnext
  exact hs.after (hguard s a hg) hstep

end Steps

/-! ### State machine safety -/

/-- Nodes that apply an entry of the same index apply the same entry. -/
def StateMachineSafe (S : System Cluster Cluster.Action) : Prop :=
  ∀ (as : List Cluster.Action) (t : Cluster), S.exec S.init as = some t →
    ∀ i j (index : ℤ) (entry entry' : LogEntry), .applied i index entry ∈ t.history →
      .applied j index entry' ∈ t.history → entry = entry'

/-- **State machine safety**: what is applied was chosen, and what is chosen agrees. -/
theorem cluster_stateMachineSafe (cfg : ClusterConfig) :
    StateMachineSafe ((cluster cfg).restrict Cluster.FollowsRaft) := by
  intro as t ht i j index entry entry' happlied happlied'
  have hs := sound_exec (fun _ _ h => h) ht
  obtain ⟨-, T, log, hchosen, hget⟩ := hs.replication.event _ happlied i index entry rfl
  obtain ⟨-, T', log', hchosen', hget'⟩ := hs.replication.event _ happlied' j index entry' rfl
  rcases hs.replicas.chosen_comparable hchosen hchosen' with hpre | hpre
  · exact Option.some.inj ((getElem?_mono hpre hget).symm.trans hget')
  · exact Option.some.inj (hget.symm.trans (getElem?_mono hpre hget'))

/-- `A` commits and applies its entry with the help of `B`, and its next heartbeat has `B` do
the same. -/
def sampleCommit : List Cluster.Action :=
  sampleReplication ++
    [.sendAppendEntries (utf8 "A"), .loseAppend (utf8 "A"), .finishHeartbeat (utf8 "A"),
      .applyCommitted (utf8 "A"), .startHeartbeat (utf8 "A"), .sendAppendEntries (utf8 "A"),
      .deliver 4, .applyCommitted (utf8 "B")]

theorem cluster_stateMachineSafe_sample :
    ∃ t, ((cluster sampleCluster).restrict Cluster.FollowsRaft).exec
        (Cluster.start sampleCluster) sampleCommit = some t ∧
      .applied (utf8 "A") 1 ⟨1, 1, utf8 "set", utf8 "x"⟩ ∈ t.history ∧
      (∃ entry, .applied (utf8 "B") 1 entry ∈ t.history) ∧
      ∀ j entry, .applied j 1 entry ∈ t.history → entry = ⟨1, 1, utf8 "set", utf8 "x"⟩ := by
  obtain ⟨t, ht, happlied⟩ := ((cluster sampleCluster).restrict
    Cluster.FollowsRaft).exists_exec_of_any (Cluster.start sampleCluster) sampleCommit
    (fun t =>
      decide (.applied (utf8 "A") 1 ⟨1, 1, utf8 "set", utf8 "x"⟩ ∈ t.history) &&
        decide (.applied (utf8 "B") 1 ⟨1, 1, utf8 "set", utf8 "x"⟩ ∈ t.history))
    (by decide +kernel)
  rw [Bool.and_eq_true, decide_eq_true_eq, decide_eq_true_eq] at happlied
  exact ⟨t, ht, happlied.1, ⟨_, happlied.2⟩, fun j entry hentry =>
    cluster_stateMachineSafe sampleCluster _ t ht j _ 1 entry _ hentry happlied.1⟩

/-- After the first election `A` has sent a heartbeat to `B`, and `C` gets the vote of `B`
in the same term. -/
def sampleRivals : List Cluster.Action :=
  sampleElection ++
    [.startHeartbeat (utf8 "A"), .sendAppendEntries (utf8 "A"), .deliver 2,
      .loseAppend (utf8 "A"), .sendAppendEntries (utf8 "A"), .loseAppend (utf8 "A"),
      .finishHeartbeat (utf8 "A"), .electionTimeout (utf8 "C"), .sendRequestVote (utf8 "C"),
      .loseVote (utf8 "C"), .sendRequestVote (utf8 "C"), .deliver 5,
      .receiveVote (utf8 "C") 2, .finishElection (utf8 "C")]

/-- `A` and `C` both commit an entry of their own with the help of `B`, and apply it. -/
def sampleRivalCommits : List Cluster.Action :=
  [.operate (utf8 "A") (.propose (utf8 "set") (utf8 "x")), .startHeartbeat (utf8 "A"),
    .sendAppendEntries (utf8 "A"), .deliver 6, .receiveAppend (utf8 "A") 3,
    .applyCommitted (utf8 "A"), .operate (utf8 "C") (.propose (utf8 "set") (utf8 "y")),
    .startHeartbeat (utf8 "C"), .sendAppendEntries (utf8 "C"), .loseAppend (utf8 "C"),
    .sendAppendEntries (utf8 "C"), .deliver 8, .receiveAppend (utf8 "C") 4,
    .applyCommitted (utf8 "C")]

/-- The two apply different entries as the first. -/
theorem sampleRivals_applyDifferent : ¬ StateMachineSafe (cluster sampleCluster) := by
  intro hsafe
  obtain ⟨t, ht, happlied⟩ := (cluster sampleCluster).exists_exec_of_any
    (Cluster.start sampleCluster) (sampleRivals ++ sampleRivalCommits)
    (fun t =>
      decide (.applied (utf8 "A") 1 ⟨1, 1, utf8 "set", utf8 "x"⟩ ∈ t.history) &&
        decide (.applied (utf8 "C") 1 ⟨1, 1, utf8 "set", utf8 "y"⟩ ∈ t.history))
    (by decide +kernel)
  rw [Bool.and_eq_true, decide_eq_true_eq, decide_eq_true_eq] at happlied
  have heq := hsafe _ t ht _ _ _ _ _ happlied.1 happlied.2
  exact absurd heq (by decide +kernel)

/-! ### Committed entries stay -/

/-- The indices are in order, and what a node has committed is in its log, where it stays
whatever the next step is. -/
def CommittedPrefixStable (S : System Cluster Cluster.Action) : Prop :=
  ∀ (as : List Cluster.Action) (s : Cluster), S.exec S.init as = some s →
    (∀ i, 0 ≤ (s.nodes i).lastApplied ∧ (s.nodes i).lastApplied ≤ (s.nodes i).commitIndex ∧
      (s.nodes i).commitIndex ≤ (s.nodes i).log.length) ∧
    ∀ (a : Cluster.Action) (t : Cluster), S.step s a = some t →
      ∀ i, (s.nodes i).commitIndex ≤ (t.nodes i).commitIndex ∧
        (s.nodes i).log.take (s.nodes i).commitIndex.toNat <+: (t.nodes i).log

/-- **Committed entries stay.** -/
theorem cluster_committedPrefixStable (cfg : ClusterConfig) :
    CommittedPrefixStable ((cluster cfg).restrict Cluster.FollowsRaft) := by
  intro as s hexec
  have hs := sound_exec (fun _ _ h => h) hexec
  refine ⟨fun i => ?_, fun a t hst i => ?_⟩
  · obtain ⟨hcom, -⟩ := hs.replication.node i
    exact ⟨hcom.applied_nonneg, hcom.applied_le, hcom.commit_le⟩
  · obtain ⟨hg, hnext⟩ := System.step_restrict.mp hst
    obtain ⟨j, e, hstep, rfl⟩ := Cluster.step_cases hnext
    by_cases hi : i = j
    · subst hi
      rw [Cluster.nodes_after_self]
      obtain ⟨-, -, hext⟩ := committed_step hs.ballots hs.matching hs.replication hs.replicas
        hg hstep
      exact ⟨hext.commit_le, hext.log⟩
    · rw [Cluster.nodes_after_of_ne _ _ _ hi]
      exact ⟨le_refl _, List.take_prefix _ _⟩

/-- Where both have committed the entry, the request that brought it arrives once more, and
takes nothing away. -/
theorem cluster_committedPrefixStable_sample :
    ∃ s t, ((cluster sampleCluster).restrict Cluster.FollowsRaft).exec
        (Cluster.start sampleCluster) sampleCommit = some s ∧
      ((cluster sampleCluster).restrict Cluster.FollowsRaft).step s (.deliver 2) = some t ∧
      (s.nodes (utf8 "B")).commitIndex = 1 ∧ 1 ≤ (t.nodes (utf8 "B")).commitIndex ∧
      (s.nodes (utf8 "B")).log.take 1 <+: (t.nodes (utf8 "B")).log := by
  obtain ⟨s, hs, htest⟩ := ((cluster sampleCluster).restrict
    Cluster.FollowsRaft).exists_exec_of_any (Cluster.start sampleCluster) sampleCommit
    (fun s => decide ((s.nodes (utf8 "B")).commitIndex = 1) &&
      (((cluster sampleCluster).restrict Cluster.FollowsRaft).step s (.deliver 2)).isSome)
    (by decide +kernel)
  rw [Bool.and_eq_true, decide_eq_true_eq] at htest
  obtain ⟨hcommit, hsome⟩ := htest
  obtain ⟨t, ht⟩ := Option.isSome_iff_exists.mp hsome
  obtain ⟨-, hnext⟩ := cluster_committedPrefixStable sampleCluster _ s hs
  have hkept := hnext _ t ht (utf8 "B")
  rw [hcommit] at hkept
  exact ⟨s, t, hs, ht, hcommit, hkept⟩

/-- `A` sends `B` its first entry, then both its entries, and tells it that they are
committed; the first message is still under way. -/
def sampleLateAppend : List Cluster.Action :=
  sampleElection ++
    [.operate (utf8 "A") (.propose (utf8 "set") (utf8 "x")), .startHeartbeat (utf8 "A"),
      .sendAppendEntries (utf8 "A"), .loseAppend (utf8 "A"), .sendAppendEntries (utf8 "A"),
      .loseAppend (utf8 "A"), .finishHeartbeat (utf8 "A"),
      .operate (utf8 "A") (.propose (utf8 "set") (utf8 "y")), .startHeartbeat (utf8 "A"),
      .sendAppendEntries (utf8 "A"), .deliver 4, .receiveAppend (utf8 "A") 1,
      .sendAppendEntries (utf8 "A"), .loseAppend (utf8 "A"), .finishHeartbeat (utf8 "A"),
      .startHeartbeat (utf8 "A"), .sendAppendEntries (utf8 "A"), .deliver 6]

/-- When the first message arrives, `B` erases the second entry, which it has committed. -/
theorem sampleLateAppend_erases : ¬ CommittedPrefixStable (cluster sampleCluster) := by
  intro hstable
  obtain ⟨t, ht, hlost⟩ := (cluster sampleCluster).exists_exec_of_any
    (Cluster.start sampleCluster) (sampleLateAppend ++ [.deliver 2])
    (fun t => decide ((t.nodes (utf8 "B")).commitIndex = 2) &&
      decide ((t.nodes (utf8 "B")).log.length = 1))
    (by decide +kernel)
  rw [Bool.and_eq_true, decide_eq_true_eq, decide_eq_true_eq] at hlost
  have hle := ((hstable _ t ht).1 (utf8 "B")).2.2
  rw [hlost.1, hlost.2] at hle
  exact absurd hle (by decide)
