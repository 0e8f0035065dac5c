import RpcFramework.Raft.Commit
import RpcFramework.Raft.Provenance

/-!
# What the state machines are given

`applyCommittedEntries` passes one entry after the other to the state machine of its node.
Whatever goes wrong elsewhere, a machine is given the entries of index one, two, and so on,
each once and in order.  Where the cluster follows the protocol, these are the beginning of the
node's log, and of any two machines one has been given what the other has, and perhaps more.

## Main definitions

* `consecutive` — entries with the indices that follow a given one.
* `handedTo` — what the history says a machine was given, the first entry first.
* `AppliedInOrder` — a machine was given consecutive entries, up to `last_applied_`.

## Main results

* `RaftNode.applyCommittedEntries_eq` — what the applier passes on, exactly.
* `cluster_appliedInOrder` — **each entry once, in order**, in every run whatsoever.
* `cluster_machinesAgree` — **machines are given the beginnings of one list**, in every run that
  follows the protocol.
-/

open Rpc

/-- The entries, with the indices that follow `start`. -/
def consecutive (start : ℤ) : List LogEntry → List (ℤ × LogEntry)
  | [] => []
  | entry :: log => (start + 1, entry) :: consecutive (start + 1) log

section Consecutive

variable {start : ℤ} {l l' : List LogEntry}

theorem consecutive_append : ∀ {start : ℤ} {l l' : List LogEntry},
    consecutive start (l ++ l') = consecutive start l ++ consecutive (start + l.length) l' := by
  intro start l
  induction l generalizing start with
  | nil =>
    intro l'
    simp [consecutive]
  | cons entry l ih =>
    intro l'
    rw [List.cons_append, consecutive, consecutive, ih, List.cons_append, List.length_cons]
    push_cast
    rw [add_assoc start 1, add_comm (1 : ℤ)]

theorem consecutive_prefix (h : l <+: l') : consecutive start l <+: consecutive start l' := by
  obtain ⟨rest, rfl⟩ := h
  rw [consecutive_append]
  exact List.prefix_append _ _

theorem map_snd_consecutive : ∀ {start : ℤ} {l : List LogEntry},
    (consecutive start l).map Prod.snd = l := by
  intro start l
  induction l generalizing start with
  | nil => rfl
  | cons entry l ih => rw [consecutive, List.map_cons, ih]

end Consecutive

/-! ### The applier's loop -/

namespace RaftNode

/-- **What the applier passes on**: the entries behind `last_applied_`, up to some point. -/
theorem applyLoop_eq : ∀ {fuel : ℕ} {n : RaftNode}, 0 ≤ n.lastApplied →
    ∃ k : ℕ, k ≤ n.log.length - n.lastApplied.toNat ∧
      (applyLoop fuel n).1 = { n with lastApplied := n.lastApplied + k } ∧
      (applyLoop fuel n).2 =
        consecutive n.lastApplied ((n.log.drop n.lastApplied.toNat).take k) := by
  intro fuel
  induction fuel with
  | zero =>
    intro n _
    exact ⟨0, Nat.zero_le _, by simp [applyLoop], by simp [applyLoop, consecutive]⟩
  | succ fuel ih =>
    intro n hpos
    have hstop : applyLoop (fuel + 1) n = (n, []) ∨ n.lastApplied < n.commitIndex ∧
        ∃ entry, n.log[n.lastApplied.toNat]? = some entry := by
      rw [applyLoop]
      by_cases hlt : n.lastApplied < n.commitIndex
      · cases hentry : n.log[n.lastApplied.toNat]? with
        | none => exact Or.inl (by simp [hlt])
        | some entry => exact Or.inr ⟨hlt, entry, rfl⟩
      · exact Or.inl (by simp [hlt])
    rcases hstop with hstop | ⟨hlt, entry, hentry⟩
    · rw [hstop]
      exact ⟨0, Nat.zero_le _, by simp, by simp [consecutive]⟩
    · obtain ⟨k, hk, hnode, hentries⟩ :=
        ih (n := { n with lastApplied := n.lastApplied + 1 }) (by simp only; omega)
      simp only at hk hnode hentries
      have hnext : (n.lastApplied + 1).toNat = n.lastApplied.toNat + 1 := by omega
      obtain ⟨hbound, hget⟩ := List.getElem?_eq_some_iff.mp hentry
      refine ⟨k + 1, by omega, ?_, ?_⟩
      · rw [applyLoop, if_pos hlt, hentry]
        simp only [hnode]
        push_cast
        rw [add_assoc, add_comm (1 : ℤ)]
      · rw [applyLoop, if_pos hlt, hentry, List.drop_eq_getElem_cons hbound, hget,
          List.take_succ_cons, consecutive]
        simp only [hentries, hnext]

theorem applyCommittedEntries_eq : ∀ {n : RaftNode}, 0 ≤ n.lastApplied →
    ∃ k : ℕ, k ≤ n.log.length - n.lastApplied.toNat ∧
      n.applyCommittedEntries.1 = { n with lastApplied := n.lastApplied + k } ∧
      n.applyCommittedEntries.2 =
        consecutive n.lastApplied ((n.log.drop n.lastApplied.toNat).take k) := by
  intro n hpos
  exact applyLoop_eq hpos

end RaftNode

/-! ### What a machine is given -/

/-- What the event says node `i` passed to its state machine. -/
def Event.handed (i : Bytes) : Event → Option (ℤ × LogEntry)
  | .applied j index entry => if j = i then some (index, entry) else none
  | _ => none

/-- What node `i` has passed to its state machine, the first entry first. -/
def handedTo (h : List Event) (i : Bytes) : List (ℤ × LogEntry) :=
  h.reverse.filterMap (Event.handed i)

/-- The node's machine was given consecutive entries up to `last_applied_`, and all of them
are genuine. -/
def AppliedInOrder (h : List Event) (i : Bytes) (n : RaftNode) : Prop :=
  ∃ l : List LogEntry, handedTo h i = consecutive 0 l ∧ n.lastApplied = l.length ∧
    ∀ p entry, l[p]? = some entry → Genuine h p entry

section Handed

variable {h events : List Event} {i j : Bytes}

theorem handedTo_append : handedTo (events ++ h) i = handedTo h i ++ handedTo events i := by
  rw [handedTo, List.reverse_append, List.filterMap_append]
  rfl

/-- Events at other nodes hand the node's machine nothing. -/
theorem handedTo_of_node (hnode : ∀ ev ∈ events, ev.node = j) (hj : i ≠ j) :
    handedTo events i = [] := by
  refine List.filterMap_eq_nil_iff.mpr ?_
  intro ev hev
  have hat := hnode ev (List.mem_reverse.mp hev)
  cases ev with
  | applied k index entry =>
    rw [Event.handed, if_neg]
    rintro rfl
    exact hj hat
  | voted | elected | proposed | accepted | acknowledged => rfl

theorem handedTo_applied : ∀ {l : List (ℤ × LogEntry)},
    handedTo (l.reverse.map fun p => .applied i p.1 p.2) i = l := by
  intro l
  rw [handedTo, ← List.map_reverse, List.reverse_reverse, List.filterMap_map]
  have hsome : (Event.handed i ∘ fun p : ℤ × LogEntry => Event.applied i p.1 p.2) = some := by
    funext p
    simp [Event.handed]
  rw [hsome, List.filterMap_some]

theorem Genuine.append {p : ℕ} {entry : LogEntry} (hg : Genuine h p entry) :
    Genuine (events ++ h) p entry := by
  obtain ⟨hindex, k, hbefore⟩ := hg
  exact ⟨hindex, k, hbefore.append events⟩

end Handed

section Steps

variable {cfg : ClusterConfig} {s : Cluster} {a : Cluster.Action} {i : Bytes}
  {e : Cluster.Effect}

/-- **Only the applier passes entries on**, and only it moves `last_applied_`. -/
theorem Cluster.Step.applying : Cluster.Step cfg s a i e →
    (∀ j, a ≠ .applyCommitted j) ∧ e.node.lastApplied = (s.nodes i).lastApplied ∧
        handedTo e.events i = [] ∨
      a = .applyCommitted i ∧ e.node = (s.nodes i).applyCommittedEntries.1 ∧
        handedTo e.events i = (s.nodes i).applyCommittedEntries.2 := by
  intro h
  have hother : (∀ j, a ≠ .applyCommitted j) →
      e.node.lastApplied = (s.nodes i).lastApplied → handedTo e.events i = [] →
        (∀ j, a ≠ .applyCommitted j) ∧ e.node.lastApplied = (s.nodes i).lastApplied ∧
            handedTo e.events i = [] ∨
          a = .applyCommitted i ∧ e.node = (s.nodes i).applyCommittedEntries.1 ∧
            handedTo e.events i = (s.nodes i).applyCommittedEntries.2 :=
    fun hne hsame hnone => Or.inl ⟨hne, hsame, hnone⟩
  cases h with
  | applyCommitted i hact => exact Or.inr ⟨rfl, rfl, handedTo_applied⟩
  | electionTimeout | sendRequestVote | loseVote | winElection | failElection | startHeartbeat
  | sendAppendEntries | loseAppend | finishHeartbeat | refuse => exact hother (by simp) rfl rfl
  | propose i operation entry acknowledged hmem hidle hrole hterm hindex hack =>
    refine hother (by simp) rfl ?_
    cases acknowledged with
    | true => rfl
    | false => rfl
  | receiveVote i reply request remaining votes call response hact hreply =>
    exact hother (by simp) (SameLog.handleVoteReply response).lastApplied rfl
  | receiveAppend i reply next call peer response hact hreply hpeer =>
    refine hother (by simp) ?_ rfl
    rcases (s.nodes i).handleAppendReply_cases peer response with
      ⟨-, heq⟩ | ⟨-, ⟨k, next', -, heq⟩ | ⟨-, k, -, heq⟩⟩
    · simp only [heq, RaftNode.becomeFollower]
    · simp only [heq]
    · obtain ⟨index, hindex⟩ := RaftNode.updateCommitIndex_node
        { s.nodes i with
          nextIndex := (s.nodes i).nextIndex.set k (response.matchIndex + 1)
          matchIndex := (s.nodes i).matchIndex.set k response.matchIndex }
      simp only [heq, hindex]
  | deliverVote call src i request n response hrequest hidle hhandle =>
    refine hother (by simp) (SameLog.handleRequestVote hhandle).lastApplied ?_
    cases hgranted : response.voteGranted <;> simp [Cluster.voteEvents, hgranted, handedTo,
      Event.handed]
  | deliverAppend call src i request n response hrequest hidle hhandle =>
    refine hother (by simp) ?_ ?_
    · rcases RaftNode.handleAppendEntries_cases hhandle with
        ⟨-, rfl, -⟩ | ⟨-, -, rfl, -⟩ | ⟨-, -, log, -, rfl, -⟩
      · rfl
      · rfl
      · rfl
    · cases hsuccess : response.success <;> simp [Cluster.appendEvents, hsuccess, handedTo,
        Event.handed]

/-- Every machine was given consecutive genuine entries. -/
def appliedInOrder : Parts where
  node r i n _ := AppliedInOrder r.history i n
  request _ _ := True
  reply _ _ := True
  event _ _ := True

/-- **Machines are given entries in order**, after every step. -/
theorem appliedInOrder_after : appliedInOrder.Hold s → NothingMadeUp s →
    Cluster.Step cfg s a i e → appliedInOrder.Hold (s.after i e) := by
  intro hs hgenuine hstep
  have hnodes := hstep.node_of_mem_events
  refine hs.after ⟨?_, fun _ _ => trivial, fun _ _ => trivial, fun _ _ => trivial⟩
    ⟨?_, fun _ _ => trivial, fun _ _ => trivial, fun _ _ => trivial⟩
  · rintro j n act hj ⟨l, hhanded, hlen, hl⟩
    refine ⟨l, ?_, hlen, fun p entry he => (hl p entry he).append⟩
    rw [Cluster.history_record, Cluster.history_after, handedTo_append,
      handedTo_of_node hnodes hj, List.append_nil]
    exact hhanded
  · obtain ⟨l, hhanded, hlen, hl⟩ := hs.node i
    have hhistory : handedTo (e.events ++ s.history) i =
        consecutive 0 l ++ handedTo e.events i := by
      rw [handedTo_append]
      exact congrArg (· ++ handedTo e.events i) hhanded
    rcases hstep.applying with ⟨-, hsame, hnone⟩ | ⟨-, hnode, hentries⟩
    · refine ⟨l, ?_, hsame.trans hlen, fun p entry he => (hl p entry he).append⟩
      rw [Cluster.history_record, Cluster.history_after, hhistory, hnone, List.append_nil]
    · obtain ⟨k, hk, happlied, hpassed⟩ := RaftNode.applyCommittedEntries_eq (n := s.nodes i)
        (by omega)
      have hnat : (s.nodes i).lastApplied.toNat = l.length := by omega
      rw [hnat] at hk hpassed
      refine ⟨l ++ ((s.nodes i).log.drop l.length).take k, ?_, ?_, ?_⟩
      · rw [Cluster.history_record, Cluster.history_after, hhistory, hentries, consecutive_append,
          hpassed, hlen, zero_add]
      · rw [hnode, happlied]
        simp only [hlen, List.length_append, List.length_take, List.length_drop]
        push_cast
        omega
      · intro p entry he
        rcases Nat.lt_or_ge p l.length with hlt | hge
        · rw [List.getElem?_append_left hlt] at he
          exact (hl p entry he).append
        · -- what is new comes from the node's log
          rw [List.getElem?_append_right hge] at he
          obtain ⟨hpk, -⟩ := List.getElem?_eq_some_iff.mp he
          rw [List.length_take] at hpk
          rw [List.getElem?_take_of_lt (by omega), List.getElem?_drop,
            Nat.add_sub_cancel' hge] at he
          exact (hgenuine.log i p entry he).append

theorem appliedInOrder_start (cfg : ClusterConfig) : appliedInOrder.Hold (Cluster.start cfg) where
  node i := ⟨[], rfl, rfl, fun p entry he => by simp at he⟩
  request _ _ := trivial
  reply _ _ := trivial
  event _ _ := trivial

end Steps

/-! ### Whole runs -/

/-- **Each entry once, in order**: whatever the interleaving, a node's state machine has been
given the entries of index one to `last_applied_`, one after the other, and each of them is an
entry that an elected node proposed for that index. -/
theorem cluster_appliedInOrder (cfg : ClusterConfig) : ∀ (as : List Cluster.Action) (t : Cluster),
    (cluster cfg).exec (cluster cfg).init as = some t →
      ∀ i, AppliedInOrder t.history i (t.nodes i) := by
  intro as t h
  have hall : (office.Hold t ∧ (inherited Proposed).Hold t) ∧ appliedInOrder.Hold t := by
    refine System.exec_invariant
      (I := fun s => (office.Hold s ∧ (inherited Proposed).Hold s) ∧ appliedInOrder.Hold s) ?_
      ⟨⟨office_start cfg, inherited_start inherited_proposed cfg⟩, appliedInOrder_start cfg⟩ h
    rintro s a t ⟨⟨hoffice, hlogs⟩, hs⟩ hst
    obtain ⟨i, e, hstep, rfl⟩ := Cluster.step_cases hst
    have hgenuine := nothingMadeUp_of_proposed hoffice hlogs
    exact ⟨⟨office_after hoffice hstep.course,
      inherited_after inherited_proposed hlogs trivial hstep⟩,
      appliedInOrder_after hs hgenuine hstep⟩
  exact hall.2.node

/-- What a node's machine was given is the beginning of its log. -/
def AppliedFromLog (h : List Event) (i : Bytes) (n : RaftNode) : Prop :=
  handedTo h i = consecutive 0 (n.log.take n.lastApplied.toNat)

section Runs

variable {cfg : ClusterConfig} {s : Cluster} {a : Cluster.Action} {i j : Bytes}
  {e : Cluster.Effect}

/-- **One step**: what was applied stays at the beginning of the log. -/
theorem AppliedFromLog.after (hs : Sound cfg s) (hguard : s.FollowsRaft a)
    (hstep : Cluster.Step cfg s a i e) : AppliedFromLog s.history j (s.nodes j) →
      AppliedFromLog (s.after i e).history j ((s.after i e).nodes j) := by
  intro hj
  unfold AppliedFromLog at hj ⊢
  rw [Cluster.history_after, handedTo_append, hj]
  by_cases hji : j = i
  · subst hji
    obtain ⟨hcom, -, -⟩ := hs.replication.node j
    obtain ⟨-, -, hext⟩ := committed_step hs.ballots hs.matching hs.replication hs.replicas
      hguard hstep
    have hle := hcom.applied_le
    have hpos := hcom.applied_nonneg
    have hin := hcom.commit_le
    have hkept : (s.nodes j).log.take (s.nodes j).lastApplied.toNat =
        e.node.log.take (s.nodes j).lastApplied.toNat := by
      obtain ⟨rest, hrest⟩ := hext.log
      have hlen : (s.nodes j).lastApplied.toNat ≤ (s.nodes j).commitIndex.toNat := by omega
      rw [← hrest, List.take_append_of_le_length (by rw [List.length_take]; omega),
        List.take_take, Nat.min_eq_left hlen]
    rw [Cluster.nodes_after_self]
    rcases hstep.applying with ⟨-, hsame, hnone⟩ | ⟨-, hnode, hentries⟩
    · rw [hnone, List.append_nil, hsame, hkept]
    · obtain ⟨k, hk, happlied, hpassed⟩ := RaftNode.applyCommittedEntries_eq hpos
      rw [hentries, hnode, hpassed, happlied]
      have hlen : ((s.nodes j).log.take (s.nodes j).lastApplied.toNat).length =
          (s.nodes j).lastApplied.toNat := List.length_take_of_le (by omega)
      have hnat : ((s.nodes j).lastApplied + (k : ℤ)).toNat =
          (s.nodes j).lastApplied.toNat + k := by omega
      have hstart : (0 : ℤ) + ((s.nodes j).log.take (s.nodes j).lastApplied.toNat).length =
          (s.nodes j).lastApplied := by omega
      simp only
      rw [hnat, List.take_add, consecutive_append, hstart]
  · rw [Cluster.nodes_after_of_ne s i e hji,
      handedTo_of_node hstep.node_of_mem_events hji, List.append_nil]

end Runs

/-- Of any two machines, one has been given the beginning of what the other has. -/
def MachinesAgree (t : Cluster) : Prop :=
  (∀ i, AppliedFromLog t.history i (t.nodes i)) ∧
    ∀ i j, handedTo t.history i <+: handedTo t.history j ∨
      handedTo t.history j <+: handedTo t.history i

/-- The applied beginnings of two logs are beginnings of chosen logs, which agree. -/
theorem machinesAgree_of_sound {cfg : ClusterConfig} {t : Cluster} (hs : Sound cfg t)
    (hfrom : ∀ i, AppliedFromLog t.history i (t.nodes i)) : MachinesAgree t := by
  refine ⟨hfrom, ?_⟩
  intro i j
  have hchosen : ∀ k, (t.nodes k).log.take (t.nodes k).lastApplied.toNat = [] ∨
      ∃ T log, Chosen cfg t.history T log ∧
        (t.nodes k).log.take (t.nodes k).lastApplied.toNat <+: log := by
    intro k
    obtain ⟨hcom, -, -⟩ := hs.replication.node k
    have hle := hcom.applied_le
    have hpre : (t.nodes k).log.take (t.nodes k).lastApplied.toNat <+:
        (t.nodes k).log.take (t.nodes k).commitIndex.toNat :=
      List.take_prefix_take_left (by omega)
    rcases hcom.certified with hnil | ⟨T, log, -, hchosen, hlog⟩
    · rw [hnil, List.prefix_nil] at hpre
      exact Or.inl hpre
    · exact Or.inr ⟨T, log, hchosen, hpre.trans hlog⟩
  rw [hfrom i, hfrom j]
  rcases hchosen i with hnil | ⟨T, log, hlog, hi⟩
  · rw [hnil]
    exact Or.inl List.nil_prefix
  · rcases hchosen j with hnil | ⟨T', log', hlog', hj⟩
    · rw [hnil]
      exact Or.inr List.nil_prefix
    · have hcomparable : (t.nodes i).log.take (t.nodes i).lastApplied.toNat <+:
            (t.nodes j).log.take (t.nodes j).lastApplied.toNat ∨
          (t.nodes j).log.take (t.nodes j).lastApplied.toNat <+:
            (t.nodes i).log.take (t.nodes i).lastApplied.toNat := by
        rcases hs.replicas.chosen_comparable hlog hlog' with hpre | hpre
        · exact List.prefix_or_prefix_of_prefix (hi.trans hpre) hj
        · exact List.prefix_or_prefix_of_prefix hi (hj.trans hpre)
      exact hcomparable.imp consecutive_prefix consecutive_prefix

/-- **Machines are given the beginnings of one list**: in every run that follows the protocol,
what a node's machine was given is the beginning of the node's log, and of any two machines one
was given what the other was, and perhaps more. -/
theorem cluster_machinesAgree (cfg : ClusterConfig) : ∀ (as : List Cluster.Action) (t : Cluster),
    ((cluster cfg).restrict Cluster.FollowsRaft).exec (cluster cfg).init as = some t →
      MachinesAgree t := by
  intro as t h
  have hboth : Sound cfg t ∧ ∀ i, AppliedFromLog t.history i (t.nodes i) := by
    refine System.exec_invariant
      (I := fun s => Sound cfg s ∧ ∀ i, AppliedFromLog s.history i (s.nodes i)) ?_
      ⟨sound_start cfg, fun i => rfl⟩ h
    rintro s a t ⟨hs, hfrom⟩ hst
    obtain ⟨hguard, hnext⟩ := System.step_restrict.mp hst
    obtain ⟨i, e, hstep, rfl⟩ := Cluster.step_cases hnext
    exact ⟨hs.after hguard hstep, fun j => (hfrom j).after hs hguard hstep⟩
  exact machinesAgree_of_sound hboth.1 hboth.2

/-- `A` sends `B` its entry, commits it when `B` has answered, and applies it. -/
def sampleApply : List Cluster.Action := sampleReplication ++ [.applyCommitted (utf8 "A")]

theorem cluster_appliedInOrder_sample :
    ∃ t, (cluster sampleCluster).exec (cluster sampleCluster).init sampleApply = some t ∧
      (t.nodes (utf8 "A")).lastApplied = 1 ∧
        AppliedInOrder t.history (utf8 "A") (t.nodes (utf8 "A")) := by
  obtain ⟨t, ht, happlied⟩ := (cluster sampleCluster).exists_exec_of_any
    (cluster sampleCluster).init sampleApply
    (fun t => (t.nodes (utf8 "A")).lastApplied = 1) (by decide +kernel)
  exact ⟨t, ht, of_decide_eq_true happlied,
    cluster_appliedInOrder sampleCluster _ t ht (utf8 "A")⟩

theorem cluster_machinesAgree_sample :
    ∃ t, ((cluster sampleCluster).restrict Cluster.FollowsRaft).exec (cluster sampleCluster).init
        sampleApply = some t ∧ MachinesAgree t := by
  obtain ⟨t, ht, -⟩ := ((cluster sampleCluster).restrict
    Cluster.FollowsRaft).exists_exec_of_any (cluster sampleCluster).init sampleApply
    (fun _ => true) (by decide +kernel)
  exact ⟨t, ht, cluster_machinesAgree sampleCluster _ t ht⟩
