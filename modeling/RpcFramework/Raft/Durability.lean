import RpcFramework.Raft.Commit

/-!
# Durability of acknowledged writes

The leader answers `success = true` once its own log has the entry.  Whoever is leader
later has the entry too if it was committed before the next leader is elected, and if the
node that answers is then the only leader.  Otherwise a leader that loses its office takes
acknowledged entries with it.

## Main definitions

* `Durable` — whoever is leader after an acknowledgement has the entry, at its index.
* `AcknowledgesAlone`, `ElectsAfterCommit` — the conditions.

## Main results

* `cluster_durable` — **acknowledged entries stay with the leaders.**
-/

open Rpc

/-- Whoever is leader after an acknowledgement has the entry, at its index. -/
def Durable (S : System Cluster Cluster.Action) : Prop :=
  ∀ (as : List Cluster.Action) (t : Cluster), S.exec S.init as = some t →
    ∀ i (index : ℕ) (entry : LogEntry), .acknowledged i index entry ∈ t.history →
      ∀ j, (t.nodes j).role = .leader → (t.nodes j).log[index - 1]? = some entry

namespace Cluster

variable (cfg : ClusterConfig) (s : Cluster)

/-- An operation is acknowledged while no other node takes itself for the leader. -/
def AcknowledgesAlone : Action → Prop
  | .operate i operation =>
      operation.acknowledged = true →
        ∀ j ∈ cfg.members, (s.nodes j).role = .leader → j = i
  | _ => True

/-- If the event is an acknowledgement, some node in a term up to the given one has
committed the entry. -/
def CommittedBy (term : ℤ) : Event → Prop
  | .acknowledged _ index entry =>
      ∃ j ∈ cfg.members, (s.nodes j).currentTerm ≤ term ∧
        (index : ℤ) ≤ (s.nodes j).commitIndex ∧ (s.nodes j).log[index - 1]? = some entry
  | _ => True

/-- An election is won after what was acknowledged has been committed. -/
def ElectsAfterCommit : Action → Prop
  | .finishElection i =>
      match s.activity i with
      | .electing _ _ votes =>
          (s.nodes i).majority ≤ votes →
            ∀ ev ∈ s.history, s.CommittedBy cfg (s.nodes i).currentTerm ev
      | _ => True
  | _ => True

/-- The conditions together. -/
def CommitsInTime (a : Action) : Prop :=
  s.FollowsRaft a ∧ s.AcknowledgesAlone cfg a ∧ s.ElectsAfterCommit cfg a

instance (a : Action) : Decidable (s.AcknowledgesAlone cfg a) := by
  unfold AcknowledgesAlone
  split <;> infer_instance

instance (term : ℤ) (ev : Event) : Decidable (s.CommittedBy cfg term ev) := by
  unfold CommittedBy
  split <;> infer_instance

instance (a : Action) : Decidable (s.ElectsAfterCommit cfg a) := by
  unfold ElectsAfterCommit
  match a with
  | .finishElection i =>
    dsimp only
    match s.activity i with
    | .electing .. => infer_instance
    | .idle | .awaitingVote .. | .heartbeating _ | .awaitingAppend .. => infer_instance
  | .electionTimeout _ | .sendRequestVote _ | .receiveVote .. | .loseVote _
  | .startHeartbeat _ | .sendAppendEntries _ | .receiveAppend .. | .loseAppend _
  | .finishHeartbeat _ | .deliver _ | .operate .. | .applyCommitted _ => infer_instance

instance (a : Action) : Decidable (s.CommitsInTime cfg a) := inferInstanceAs (Decidable (_ ∧ _))

end Cluster

section Steps

variable {cfg : ClusterConfig} {s : Cluster} {i : Bytes}

/-- The leaders have every entry that was acknowledged. -/
def LeadersHave (s : Cluster) : Prop :=
  ∀ i (index : ℕ) (entry : LogEntry), .acknowledged i index entry ∈ s.history →
    0 < index ∧ ∀ j, (s.nodes j).role = .leader → (s.nodes j).log[index - 1]? = some entry

/-- A leader that has not just been elected was leader before, with a log that its log
still begins with. -/
theorem Cluster.Step.leader_log {a : Cluster.Action} {e : Cluster.Effect}
    (hstep : Cluster.Step cfg s a i e)
    (hrole : e.node.role = .leader) :
    (s.nodes i).role = .leader ∧ (s.nodes i).log <+: e.node.log ∨
      ∃ request votes, a = .finishElection i ∧ s.activity i = .electing request [] votes ∧
        (s.nodes i).majority ≤ votes ∧ e.node = (s.nodes i).becomeLeader := by
  have hquiet : ∀ n, SameLog (s.nodes i) n → n.role = .leader →
      (s.nodes i).role = .leader ∧ (s.nodes i).log <+: n.log := by
    intro n hsame hlead
    rw [hsame.log]
    exact ⟨(hsame.role hlead).1, List.prefix_refl _⟩
  cases hstep with
  | winElection i request votes hact hwin => exact Or.inr ⟨request, votes, rfl, hact, hwin, rfl⟩
  | electionTimeout => simp [RaftNode.startElection, RaftNode.becomeCandidate] at hrole
  | failElection => simp [RaftNode.becomeFollower] at hrole
  | deliverVote call src i request n response hrequest hidle hhandle =>
    exact Or.inl (hquiet n (.handleRequestVote hhandle) hrole)
  | receiveVote i reply request remaining votes call response hact hreply =>
    exact Or.inl (hquiet _ (.handleVoteReply response) hrole)
  | deliverAppend call src i request n response hrequest hidle hhandle =>
    rcases RaftNode.handleAppendEntries_cases hhandle with
      ⟨-, rfl, -⟩ | ⟨-, -, rfl, -⟩ | ⟨-, -, log, -, rfl, -⟩
    · exact Or.inl ⟨hrole, List.prefix_refl _⟩
    · simp [RaftNode.becomeFollower] at hrole
    · simp [RaftNode.becomeFollower] at hrole
  | receiveAppend i reply next call peer response hact hreply hpeer =>
    refine Or.inl ?_
    obtain ⟨hlog, -⟩ := (s.nodes i).log_handleAppendReply peer response
    simp only [hlog]
    exact ⟨(s.nodes i).role_handleAppendReply peer response hrole, List.prefix_refl _⟩
  | propose i operation entry acknowledged hmem hidle hrole' =>
    exact Or.inl ⟨hrole', List.prefix_append _ _⟩
  | applyCommitted i hact =>
    obtain ⟨applied, hnode⟩ := (s.nodes i).applyCommittedEntries_node
    rw [hnode] at hrole
    simp only [hnode]
    exact Or.inl ⟨hrole, List.prefix_refl _⟩
  | sendRequestVote | loseVote | startHeartbeat | sendAppendEntries | loseAppend
  | finishHeartbeat | refuse => exact Or.inl ⟨hrole, List.prefix_refl _⟩

/-- An acknowledgement is one of an entry that is just being appended. -/
theorem Cluster.Step.acknowledged {a : Cluster.Action} {e : Cluster.Effect}
    (hstep : Cluster.Step cfg s a i e) {j : Bytes} {index : ℕ} {entry : LogEntry}
    (hev : .acknowledged j index entry ∈ e.events) :
    (s.nodes i).role = .leader ∧ index = (s.nodes i).log.length + 1 ∧
      e.node.log = (s.nodes i).log ++ [entry] ∧
        ∃ operation, a = .operate i operation ∧ operation.acknowledged = true := by
  cases hstep with
  | propose i operation entry' acknowledged hmem hidle hrole hterm hindex hack =>
    rcases Cluster.mem_proposeEvents hev with ⟨htrue, heq⟩ | heq
    · obtain ⟨-, rfl, rfl⟩ := Event.acknowledged.inj heq
      exact ⟨hrole, rfl, rfl, operation, rfl, hack.symm.trans htrue⟩
    · simp at heq
  | electionTimeout | winElection => exact absurd (List.mem_singleton.mp hev) (by simp)
  | deliverVote => exact absurd (Cluster.mem_voteEvents hev).2 (by simp)
  | deliverAppend => exact absurd (Cluster.mem_appendEvents hev).2 (by simp)
  | applyCommitted =>
    obtain ⟨p, -, hp⟩ := List.mem_map.mp hev
    simp at hp
  | sendRequestVote | receiveVote | loseVote | failElection | startHeartbeat | sendAppendEntries
  | receiveAppend | loseAppend | finishHeartbeat | refuse => exact absurd hev List.not_mem_nil

/-- A node that wins an election has what was committed by nodes of no later term. -/
theorem Sound.winner_has {e : Cluster.Effect} (hs : Sound cfg s)
    (hguard : s.FollowsRaft (.finishElection i))
    (hstep : Cluster.Step cfg s (.finishElection i) i e)
    (hnode : e.node = (s.nodes i).becomeLeader) {j : Bytes} {index : ℕ} {entry : LogEntry}
    (hpos : 0 < index)
    (hterm : (s.nodes j).currentTerm ≤ (s.nodes i).currentTerm)
    (hcommit : (index : ℤ) ≤ (s.nodes j).commitIndex)
    (hget : (s.nodes j).log[index - 1]? = some entry) :
    (s.nodes i).log[index - 1]? = some entry := by
  have hafter := hs.after hguard hstep
  have hrep := replicas_step hs.ballots hs.elections hs.matching hs.replication hs.replicas
    hguard hstep
  have hlead : ((s.after i e).nodes i).role = .leader := by
    rw [Cluster.nodes_after_self, hnode]
    rfl
  obtain ⟨E, hled⟩ := (hafter.ballots.node i).1.leader hlead
  obtain ⟨hlog, -⟩ := (hafter.matching.node i).leader hlead
  rw [Cluster.nodes_after_self, hnode] at hled hlog
  have hindex : ((index : ℤ) - 1).toNat = index - 1 := by omega
  have hheld : (s.nodes j).log[((index : ℤ) - 1).toNat]? = some entry := by
    rw [hindex]
    exact hget
  obtain ⟨T, log, hle, hchosen, hget'⟩ := (hs.replication.node j).1.chosen
    (by omega) hcommit hheld
  rw [hindex] at hget'
  -- what was chosen is in the log of the term's leader, now that there is one
  have hpre := hafter.replicas.chosen_prefix (hrep.chosen hs.replicas hchosen)
    (hle.trans hterm) (mem_facts.mpr hled)
  show (s.nodes i).becomeLeader.log[index - 1]? = some entry
  rw [hlog]
  exact getElem?_mono hpre hget'

/-- **The leaders have what was acknowledged after every step.** -/
theorem leadersHave_after {a : Cluster.Action} {e : Cluster.Effect} (hs : Sound cfg s)
    (hhave : LeadersHave s) (hguard : s.CommitsInTime cfg a) (hstep : Cluster.Step cfg s a i e) :
    LeadersHave (s.after i e) := by
  obtain ⟨hraft, halone, helects⟩ := hguard
  intro k index entry hev
  rcases List.mem_append.mp hev with hnew | hold
  · -- the node that answers is the only leader, and has just appended the entry
    obtain ⟨hrole, rfl, hlog, operation, rfl, hack⟩ := hstep.acknowledged hnew
    refine ⟨Nat.succ_pos _, fun j hlead => ?_⟩
    by_cases hj : j = i
    · subst hj
      rw [Cluster.nodes_after_self, hlog]
      simp
    · rw [Cluster.nodes_after_of_ne _ _ _ hj] at hlead
      obtain ⟨E, hled⟩ := (hs.ballots.node j).1.leader hlead
      have hmem : j ∈ cfg.members := (hs.ballots.node j).1.elected_mem _ E hled
      exact absurd (halone hack j hmem hlead) hj
  · obtain ⟨hpos, hleaders⟩ := hhave k index entry hold
    refine ⟨hpos, fun j hlead => ?_⟩
    by_cases hj : j = i
    · subst hj
      rw [Cluster.nodes_after_self] at hlead ⊢
      rcases hstep.leader_log hlead with ⟨hlead', hpre⟩ | ⟨request, votes, rfl, hact, hwin, hnode⟩
      · exact getElem?_mono hpre (hleaders j hlead')
      · simp only [Cluster.ElectsAfterCommit, hact] at helects
        obtain ⟨v, -, hterm, hcommit, hget⟩ := helects hwin _ hold
        rw [hnode]
        exact hs.winner_has hraft hstep hnode hpos hterm hcommit hget
    · rw [Cluster.nodes_after_of_ne _ _ _ hj] at hlead ⊢
      exact hleaders j hlead

end Steps

/-- **Acknowledged entries stay with the leaders**, where they are committed before the next
leader is elected. -/
theorem cluster_durable (cfg : ClusterConfig) :
    Durable ((cluster cfg).restrict (Cluster.CommitsInTime cfg)) := by
  intro as t ht i index entry hev j hlead
  have hboth : Sound cfg t ∧ LeadersHave t := by
    refine System.exec_invariant (I := fun s => Sound cfg s ∧ LeadersHave s) ?_
      ⟨sound_start cfg, fun i index entry hev => absurd hev List.not_mem_nil⟩ ht
    rintro s a t ⟨hs, hhave⟩ hst
    obtain ⟨hg, hnext⟩ := System.step_restrict.mp hst
    obtain ⟨k, e, hstep, rfl⟩ := Cluster.step_cases hnext
    exact ⟨hs.after hg.1 hstep, leadersHave_after hs hhave hg hstep⟩
  exact (hboth.2 i index entry hev).2 j hlead

/-- `A` acknowledges a registration and commits it with the help of `B`; then `B` stands, gets
the vote of `A`, and is leader. -/
def sampleKeptWrite : List Cluster.Action :=
  sampleElection ++
    [.operate (utf8 "A")
        (.serviceRegister { serviceName := utf8 "s", host := utf8 "h", port := 80 } 0),
      .startHeartbeat (utf8 "A"), .sendAppendEntries (utf8 "A"), .deliver 2,
      .receiveAppend (utf8 "A") 1, .sendAppendEntries (utf8 "A"), .loseAppend (utf8 "A"),
      .finishHeartbeat (utf8 "A"), .electionTimeout (utf8 "B"), .sendRequestVote (utf8 "B"),
      .deliver 4, .receiveVote (utf8 "B") 2, .sendRequestVote (utf8 "B"),
      .loseVote (utf8 "B"), .finishElection (utf8 "B")]

/-- The new leader has the entry. -/
theorem cluster_durable_sample :
    ∃ t entry, ((cluster sampleCluster).restrict (Cluster.CommitsInTime sampleCluster)).exec
        (Cluster.start sampleCluster) sampleKeptWrite = some t ∧
      .acknowledged (utf8 "A") 1 entry ∈ t.history ∧ t.leads (utf8 "B") 2 = true ∧
      (t.nodes (utf8 "B")).log[0]? = some entry := by
  obtain ⟨t, ht, htest⟩ := ((cluster sampleCluster).restrict
    (Cluster.CommitsInTime sampleCluster)).exists_exec_of_any (Cluster.start sampleCluster)
    sampleKeptWrite
    (fun t => t.leads (utf8 "B") 2 &&
      t.history.any fun ev => match ev with
        | .acknowledged i index _ => decide (i = utf8 "A" ∧ index = 1)
        | _ => false)
    (by decide +kernel)
  rw [Bool.and_eq_true, List.any_eq_true] at htest
  obtain ⟨hB, ev, hev, hack⟩ := htest
  cases ev with
  | acknowledged i index entry =>
    obtain ⟨rfl, rfl⟩ := of_decide_eq_true hack
    obtain ⟨hlead, -⟩ := of_decide_eq_true hB
    exact ⟨t, entry, ht, hev, hB,
      cluster_durable sampleCluster _ t ht _ 1 entry hev (utf8 "B") hlead⟩
  | _ => cases hack

/-- `A` acknowledges a registration; then `B` stands, gets the vote of `C`, and is leader. -/
def sampleLostWrite : List Cluster.Action :=
  sampleElection ++
    [.operate (utf8 "A")
        (.serviceRegister { serviceName := utf8 "s", host := utf8 "h", port := 80 } 0),
      .electionTimeout (utf8 "B"), .sendRequestVote (utf8 "B"), .loseVote (utf8 "B"),
      .sendRequestVote (utf8 "B"), .deliver 3, .receiveVote (utf8 "B") 1,
      .finishElection (utf8 "B")]

/-- The new leader has no entries at all. -/
theorem sampleLostWrite_notDurable : ¬ Durable (cluster sampleCluster) := by
  intro hdurable
  obtain ⟨t, ht, hlost⟩ := (cluster sampleCluster).exists_exec_of_any
    (Cluster.start sampleCluster) sampleLostWrite
    (fun t =>
      (decide ((t.nodes (utf8 "B")).role = .leader) && decide ((t.nodes (utf8 "B")).log = [])) &&
        t.history.any fun ev =>
          match ev with
          | .acknowledged i 1 _ => decide (i = utf8 "A")
          | _ => false)
    (by decide +kernel)
  rw [Bool.and_eq_true, Bool.and_eq_true, decide_eq_true_eq, decide_eq_true_eq] at hlost
  obtain ⟨⟨hlead, hlog⟩, hack⟩ := hlost
  obtain ⟨ev, hev, hmatch⟩ := List.any_eq_true.mp hack
  split at hmatch
  · have hget := hdurable _ t ht _ _ _ hev _ hlead
    rw [hlog] at hget
    simp at hget
  · simp at hmatch
