import RpcFramework.Raft.LogMatching

/-!
# Where the entries of a log come from

The branches in which the node leaves the protocol can give a term two leaders and make
nodes apply different entries.  They do not make anything up: whatever a log holds, some
elected node proposed, and it stands where it was proposed to stand.

A log is the empty one at first; afterwards it is changed by an entry that a leader appends,
and by a request that puts the end of another log behind the beginning of this one.  What
these three keep, every log has, and every log that a request carries.

## Main definitions

* `Cluster.Course` — what a step does to the office, the term and the log of its node.
* `Inherited` — a property of logs that the three ways of changing a log keep.
* `Genuine` — an entry that was proposed for its position by a node elected before that.
* `Ordered` — a log whose terms do not go down.

## Main results

* `Cluster.Step.course` — what a step can do, in six cases.
* `inherited_exec` — **what is inherited holds of every log in every run.**
* `cluster_genuine` — **no entry is made up**, in every run whatsoever.
* `cluster_ordered` — **terms do not go down along a log**, as long as they do not wrap around.
-/

open Rpc

/-- The node asks for votes. -/
def Activity.inElection : Activity → Bool
  | .electing .. => true
  | .awaitingVote .. => true
  | _ => false

theorem Activity.inElection_of_not {a b : Activity} (h : a.inElection = false) :
    a.inElection = true → b.inElection = true := by
  intro hel
  exact absurd (hel.symm.trans h) (by simp)

/-! ### The course of a step -/

namespace Cluster

/-- What a step does to the office, the term and the log of the node that takes it. -/
inductive Course (s : Cluster) (a : Action) (i : Bytes) (e : Effect) : Prop where
  /-- All of them stay. -/
  | stay (hrole : e.node.role = (s.nodes i).role)
      (hterm : e.node.currentTerm = (s.nodes i).currentTerm)
      (hlog : e.node.log = (s.nodes i).log)
      (hact : e.activity.inElection = true → (s.activity i).inElection = true)
      (hsilent : ∀ ev ∈ e.events, ev.leads = false)
  /-- The node becomes a follower, perhaps of a later term. -/
  | stepDown (hrole : e.node.role = .follower)
      (hterm : (s.nodes i).currentTerm ≤ e.node.currentTerm)
      (hlog : e.node.log = (s.nodes i).log)
      (hact : e.activity.inElection = true → (s.activity i).inElection = true)
      (hsilent : ∀ ev ∈ e.events, ev.leads = false)
  /-- An election begins. -/
  | stand (haction : a = .electionTimeout i) (hrole : e.node.role = .candidate)
      (hterm : e.node.currentTerm = RaftNode.wrap64 ((s.nodes i).currentTerm + 1))
      (hlog : e.node.log = (s.nodes i).log) (hsilent : ∀ ev ∈ e.events, ev.leads = false)
  /-- An election is won. -/
  | win (hact : (s.activity i).inElection = true) (hidle : e.activity.inElection = false)
      (hterm : e.node.currentTerm = (s.nodes i).currentTerm)
      (hlog : e.node.log = (s.nodes i).log)
      (hevents : e.events = [.elected i (s.nodes i).currentTerm (s.nodes i).log])
  /-- A leader appends an entry. -/
  | append (entry : LogEntry) (acknowledged : Bool)
      (haction : ∃ operation, a = .operate i operation) (hlead : (s.nodes i).role = .leader)
      (hentry : entry.term = (s.nodes i).currentTerm ∧
        entry.index = (s.nodes i).getLastLogIndex + 1)
      (hidle : e.activity.inElection = false)
      (hnode : e.node = { s.nodes i with log := (s.nodes i).log ++ [entry] })
      (hevents : e.events =
        proposeEvents i acknowledged ((s.nodes i).log.length + 1) entry)
  /-- A request is accepted. -/
  | accept (call : ℕ) (src : Bytes) (request : AppendEntriesRequest)
      (hrequest : s.requests[call]? = some ⟨src, i, .appendEntries request⟩)
      (hle : (s.nodes i).currentTerm ≤ request.term)
      (hcons : RaftNode.logConsistent (s.nodes i).log request)
      (hlog : RaftNode.replaceEntries (s.nodes i).log request = some e.node.log)
      (hrole : e.node.role = .follower) (hterm : e.node.currentTerm = request.term)
      (hidle : e.activity.inElection = false)
      (hsilent : ∀ ev ∈ e.events, ev.leads = false)

section Course

variable {cfg : ClusterConfig} {s : Cluster} {a : Action} {i : Bytes} {e : Effect}

/-- Handling a vote request leaves the log alone, and the office unless the term is new. -/
theorem Course.of_requestVote : ∀ {n : RaftNode} {request : RequestVoteRequest}
    {response : RequestVoteResponse},
    (s.nodes i).handleRequestVote request = (n, response) →
      e.node = n → e.activity.inElection = false →
        (∀ ev ∈ e.events, ev.leads = false) → Course s a i e := by
  intro n request response hhandle hnode hidle hsilent
  have hact : e.activity.inElection = true → (s.activity i).inElection = true :=
    Activity.inElection_of_not hidle
  have hobs : (n.role = (s.nodes i).role ∧ n.currentTerm = (s.nodes i).currentTerm ∧
      n.log = (s.nodes i).log) ∨
      (n.role = .follower ∧ (s.nodes i).currentTerm ≤ n.currentTerm ∧
        n.log = (s.nodes i).log) := by
    rcases (s.nodes i).handleRequestVote_cases request with
      ⟨-, heq⟩ | ⟨-, heq⟩ | ⟨-, -, -, heq⟩
    · obtain ⟨rfl, -⟩ := Prod.mk.inj (heq.symm.trans hhandle)
      exact Or.inl ⟨rfl, rfl, rfl⟩
    · obtain ⟨rfl, -⟩ := Prod.mk.inj (heq.symm.trans hhandle)
      rcases (s.nodes i).observeTerm_eq_or request.term with hsame | ⟨hlt, hfollow⟩
      · rw [hsame]
        exact Or.inl ⟨rfl, rfl, rfl⟩
      · rw [hfollow]
        exact Or.inr ⟨rfl, le_of_lt hlt, rfl⟩
    · obtain ⟨rfl, -⟩ := Prod.mk.inj (heq.symm.trans hhandle)
      rcases (s.nodes i).observeTerm_eq_or request.term with hsame | ⟨hlt, hfollow⟩
      · rw [hsame]
        exact Or.inl ⟨rfl, rfl, rfl⟩
      · rw [hfollow]
        exact Or.inr ⟨rfl, le_of_lt hlt, rfl⟩
  subst hnode
  rcases hobs with ⟨hrole, hterm, hlog⟩ | ⟨hrole, hterm, hlog⟩
  · exact .stay hrole hterm hlog hact hsilent
  · exact .stepDown hrole hterm hlog hact hsilent

/-- **What a step can do** to the office, the term and the log of its node. -/
theorem Step.course : Step cfg s a i e → Course s a i e := by
  intro h
  cases h with
  | electionTimeout i hmem hidle hrole =>
    refine .stand rfl rfl rfl rfl ?_
    intro ev hev
    rw [List.mem_singleton.mp hev]
    rfl
  | sendRequestVote i request peer remaining votes hact =>
    exact .stay rfl rfl rfl (fun _ => by rw [hact]; rfl) (by simp)
  | receiveVote i reply request remaining votes call response hact hreply =>
    have hel : (s.activity i).inElection = true := by
      rw [hact]
      rfl
    rcases (s.nodes i).handleVoteReply_cases response with ⟨hlt, heq⟩ | heq
    · refine .stepDown ?_ ?_ ?_ (fun _ => hel) (by simp)
      · simp only [heq, RaftNode.becomeFollower]
      · simp only [heq, RaftNode.becomeFollower]
        exact le_of_lt hlt
      · simp only [heq, RaftNode.becomeFollower]
    · refine .stay ?_ ?_ ?_ (fun _ => hel) (by simp)
      · simp only [heq]
      · simp only [heq]
      · simp only [heq]
  | loseVote i request remaining votes call hact =>
    exact .stay rfl rfl rfl (fun _ => by rw [hact]; rfl) (by simp)
  | winElection i request votes hact hwin =>
    exact .win (by rw [hact]; rfl) rfl rfl rfl rfl
  | failElection i request votes hact =>
    exact .stepDown rfl (le_refl _) rfl (Activity.inElection_of_not rfl)
      (by simp)
  | startHeartbeat i hmem hidle hrole =>
    exact .stay rfl rfl rfl (Activity.inElection_of_not rfl) (by simp)
  | sendAppendEntries i next peer request hact hpeer hrequest =>
    exact .stay rfl rfl rfl (Activity.inElection_of_not rfl) (by simp)
  | receiveAppend i reply next call peer response hact hreply hpeer =>
    have hout : (Activity.heartbeating (next + 1)).inElection = true →
        (s.activity i).inElection = true := Activity.inElection_of_not rfl
    rcases (s.nodes i).handleAppendReply_cases peer response with
      ⟨hlt, heq⟩ | ⟨-, ⟨k, next', -, heq⟩ | ⟨-, k, -, heq⟩⟩
    · refine .stepDown ?_ ?_ ?_ hout (by simp)
      · simp only [heq, RaftNode.becomeFollower]
      · simp only [heq, RaftNode.becomeFollower]
        exact le_of_lt hlt
      · simp only [heq, RaftNode.becomeFollower]
    · refine .stay ?_ ?_ ?_ hout (by simp)
      · simp only [heq]
      · simp only [heq]
      · simp only [heq]
    · obtain ⟨index, hindex⟩ := RaftNode.updateCommitIndex_node
        { s.nodes i with
          nextIndex := (s.nodes i).nextIndex.set k (response.matchIndex + 1)
          matchIndex := (s.nodes i).matchIndex.set k response.matchIndex }
      refine .stay ?_ ?_ ?_ hout (by simp)
      · simp only [heq, hindex]
      · simp only [heq, hindex]
      · simp only [heq, hindex]
  | loseAppend i next call hact =>
    exact .stay rfl rfl rfl (Activity.inElection_of_not rfl) (by simp)
  | finishHeartbeat i next hact =>
    exact .stay rfl rfl rfl (Activity.inElection_of_not rfl) (by simp)
  | deliverVote call src i request n response hrequest hidle hhandle =>
    refine .of_requestVote hhandle rfl rfl ?_
    intro ev hev
    rw [(mem_voteEvents hev).2]
    rfl
  | deliverAppend call src i request n response hrequest hidle hhandle =>
    have hsilent : ∀ ev ∈ appendEvents i n request response, ev.leads = false := by
      intro ev hev
      rw [(mem_appendEvents hev).2]
      rfl
    have hout : Activity.idle.inElection = true → (s.activity i).inElection = true :=
      Activity.inElection_of_not rfl
    rcases RaftNode.handleAppendEntries_cases hhandle with
      ⟨-, rfl, -⟩ | ⟨hle, -, rfl, -⟩ | ⟨hle, hcons, log, hreplace, rfl, -⟩
    · exact .stay rfl rfl rfl hout hsilent
    · exact .stepDown rfl hle rfl hout hsilent
    · exact .accept call src request hrequest hle hcons hreplace rfl rfl rfl hsilent
  | propose i operation entry acknowledged hmem hidle hrole hterm hindex hack =>
    exact .append entry acknowledged ⟨operation, rfl⟩ hrole ⟨hterm, hindex⟩ rfl rfl rfl
  | refuse i operation hidle =>
    exact .stay rfl rfl rfl (Activity.inElection_of_not rfl) (by simp)
  | applyCommitted i hact =>
    obtain ⟨applied, hnode⟩ := (s.nodes i).applyCommittedEntries_node
    refine .stay ?_ ?_ ?_ (fun hel => hel) ?_
    · simp only [hnode]
    · simp only [hnode]
    · simp only [hnode]
    · intro ev hev
      obtain ⟨p, -, rfl⟩ := List.mem_map.mp hev
      rfl

/-- An append request that is sent carries the log of its sender, in the sender's term. -/
theorem Step.snapshot : Step cfg s a i e → ∀ env ∈ e.requests, ∀ request,
    env.body = .appendEntries request →
      Snapshot (s.nodes i).log request ∧ request.term = (s.nodes i).currentTerm := by
  intro h env henv request hbody
  cases h with
  | sendAppendEntries i next peer request' hact hpeer hrequest =>
    rw [List.mem_singleton.mp henv] at hbody
    obtain rfl := Request.appendEntries.inj hbody
    obtain ⟨hsnap, hterm, -⟩ := RaftNode.appendEntriesRequest_snapshot hrequest
    exact ⟨hsnap, hterm⟩
  | sendRequestVote i request' peer remaining votes hact =>
    rw [List.mem_singleton.mp henv] at hbody
    simp at hbody
  | electionTimeout | receiveVote | loseVote | winElection | failElection | startHeartbeat
  | receiveAppend | loseAppend | finishHeartbeat | deliverVote | deliverAppend | propose | refuse
  | applyCommitted => simp at henv

end Course

end Cluster

/-! ### What logs inherit -/

/-- The log's terms do not go down. -/
def Ordered (log : List LogEntry) : Prop := log.Pairwise fun e e' => e.term ≤ e'.term

/-- A property of logs, with the history and a term they are seen in, that holds of the empty
log and is kept by whatever changes a log in a run whose steps the guard admits. -/
structure Inherited (guard : Cluster → Cluster.Action → Prop)
    (P : List Event → ℤ → List LogEntry → Prop) : Prop where
  nil : P [] 0 []
  grow : ∀ (h events : List Event) (T T' : ℤ) (log : List LogEntry),
    T ≤ T' → P h T log → P (events ++ h) T' log
  stand : ∀ (s : Cluster) (i : Bytes) (log : List LogEntry),
    guard s (.electionTimeout i) → P s.history (s.nodes i).currentTerm log →
      P s.history (RaftNode.wrap64 ((s.nodes i).currentTerm + 1)) log
  concat : ∀ (h : List Event) (i : Bytes) (log : List LogEntry) (entry : LogEntry),
    entry.index = log.length + 1 → .proposed i entry ∈ h → P h entry.term log →
      P h entry.term (log ++ [entry])
  /-- The two logs have entries of the same term where they are put together. -/
  splice : ∀ (h : List Event) (T : ℤ) (front back : List LogEntry) (k : ℕ),
    k ≤ front.length → k ≤ back.length →
      (∀ p, k = p + 1 → (front[p]?).map LogEntry.term = (back[p]?).map LogEntry.term) →
        P h T front → P h T back → P h T (front.take k ++ back.drop k)

/-- The invariant: every node's log has the property, and every log that is sent. -/
def inherited (P : List Event → ℤ → List LogEntry → Prop) : Parts where
  node r _ n _ := P r.history n.currentTerm n.log
  request r env := ∀ request, env.body = .appendEntries request →
    ∃ log, Snapshot log request ∧ P r.history request.term log
  reply _ _ := True
  event _ _ := True

section Inherited

variable {cfg : ClusterConfig} {guard : Cluster → Cluster.Action → Prop}
  {P : List Event → ℤ → List LogEntry → Prop} {s : Cluster} {a : Cluster.Action} {i : Bytes}
  {e : Cluster.Effect}

/-- What an accepted request leaves is one log up to a point and the other behind it, or the
log as it was. -/
theorem Inherited.accept (hP : Inherited guard P) : ∀ {h : List Event} {l l' log : List LogEntry}
    {request : AppendEntriesRequest}, Snapshot log request → RaftNode.logConsistent l request →
      RaftNode.replaceEntries l request = some l' → P h request.term l → P h request.term log →
        P h request.term l' := by
  intro h l l' log request hsnap hcons hreplace hl hlog
  unfold RaftNode.replaceEntries at hreplace
  split at hreplace
  · rw [← Option.some.inj hreplace]
    exact hl
  · next hne =>
    split at hreplace
    · simp at hreplace
    · rw [← Option.some.inj hreplace, hsnap.entries]
      have hback : request.prevLogIndex.toNat ≤ log.length := by
        by_contra hgt
        refine hne (hsnap.entries.trans (List.drop_eq_nil_of_le ?_))
        omega
      refine hP.splice h request.term l log _ ?_ hback ?_ hl hlog
      · -- the consistency check has found an entry there
        by_cases hpos : 0 < request.prevLogIndex
        · have hle := (hcons hpos).1
          omega
        · omega
      · intro p hp
        obtain ⟨-, hterm⟩ := hcons (by omega)
        have hindex : (request.prevLogIndex - 1).toNat = p := by omega
        have hget : log[p]? = some log[p] := List.getElem?_eq_getElem (by omega)
        rw [← hindex, hterm, hindex, hget, Option.map_some, hsnap.attach p _ hp hget]

theorem inherited_survive (hP : Inherited guard P) :
    (inherited P).Survive i s.record (s.after i e).record where
  node j n act hj hn := hP.grow _ _ _ _ _ (le_refl _) hn
  request env henv request hbody := by
    obtain ⟨log, hsnap, hlog⟩ := henv request hbody
    exact ⟨log, hsnap, hP.grow _ _ _ _ _ (le_refl _) hlog⟩
  reply _ _ := trivial
  event _ _ := trivial

/-- The node has the property after its step. -/
theorem Inherited.node (hP : Inherited guard P) : (inherited P).Hold s → guard s a →
    Cluster.Course s a i e → P (e.events ++ s.history) e.node.currentTerm e.node.log := by
  intro hs hguard hcourse
  have hn : P s.history (s.nodes i).currentTerm (s.nodes i).log := hs.node i
  cases hcourse with
  | stay hrole hterm hlog hact hsilent =>
    rw [hlog]
    exact hP.grow _ _ _ _ _ hterm.ge hn
  | stepDown hrole hterm hlog hact hsilent =>
    rw [hlog]
    exact hP.grow _ _ _ _ _ hterm hn
  | stand haction hrole hterm hlog hsilent =>
    subst haction
    rw [hlog, hterm]
    exact hP.grow _ _ _ _ _ (le_refl _) (hP.stand s i _ hguard hn)
  | win hact hidle hterm hlog hevents =>
    rw [hlog]
    exact hP.grow _ _ _ _ _ hterm.ge hn
  | append entry acknowledged haction hlead hentry hidle hnode hevents =>
    obtain ⟨hterm, hindex⟩ := hentry
    have hproposed : Event.proposed i entry ∈ e.events ++ s.history := by
      rw [hevents]
      exact List.mem_append_left _ (List.mem_append_right _ List.mem_cons_self)
    have hold : P (e.events ++ s.history) entry.term (s.nodes i).log :=
      hP.grow _ _ _ _ _ hterm.ge hn
    rw [hnode]
    simp only
    rw [← hterm]
    exact hP.concat _ i _ entry hindex hproposed hold
  | accept call src request hrequest hle hcons hlog hrole hterm hidle hsilent =>
    obtain ⟨log, hsnap, hsent⟩ := hs.request _ (List.mem_of_getElem? hrequest) request rfl
    rw [hterm]
    exact hP.accept hsnap hcons hlog (hP.grow _ _ _ _ _ hle hn)
      (hP.grow _ _ _ _ _ (le_refl _) hsent)

/-- **The invariant holds after every step.** -/
theorem inherited_after (hP : Inherited guard P) : (inherited P).Hold s → guard s a →
    Cluster.Step cfg s a i e → (inherited P).Hold (s.after i e) := by
  intro hs hguard hstep
  refine hs.after (inherited_survive hP) ⟨hP.node hs hguard hstep.course, ?_, ?_, ?_⟩
  · intro env henv request hbody
    obtain ⟨hsnap, hterm⟩ := hstep.snapshot env henv request hbody
    exact ⟨_, hsnap, hP.grow _ _ _ _ _ hterm.ge (hs.node i)⟩
  · intro _ _
    trivial
  · intro _ _
    trivial

theorem inherited_start (hP : Inherited guard P) (cfg : ClusterConfig) :
    (inherited P).Hold (Cluster.start cfg) where
  node _ := hP.nil
  request _ henv := absurd henv List.not_mem_nil
  reply _ _ := trivial
  event _ _ := trivial

/-- **What is inherited holds of every log in every run** whose steps the guard admits. -/
theorem inherited_exec [∀ s a, Decidable (guard s a)] (hP : Inherited guard P) :
    ∀ {as : List Cluster.Action} {t : Cluster},
      ((cluster cfg).restrict guard).exec (Cluster.start cfg) as = some t →
        (inherited P).Hold t := by
  intro as t h
  refine System.exec_invariant ?_ (inherited_start hP cfg) h
  intro s a t hs hst
  obtain ⟨hguard, hnext⟩ := System.step_restrict.mp hst
  obtain ⟨i, e, hstep, rfl⟩ := Cluster.step_cases hnext
  exact inherited_after hP hs hguard hstep

end Inherited

/-! ### Who is in office -/

/-- The node proposed the entry, and before that it had been elected in the term the entry
carries. -/
def ElectedBefore (h : List Event) (i : Bytes) (entry : LogEntry) : Prop :=
  ∃ newer older log, h = newer ++ .proposed i entry :: older ∧ .elected i entry.term log ∈ older

theorem ElectedBefore.append {h : List Event} {i : Bytes} {entry : LogEntry} (events : List Event)
    (hbefore : ElectedBefore h i entry) : ElectedBefore (events ++ h) i entry := by
  obtain ⟨newer, older, log, rfl, hled⟩ := hbefore
  exact ⟨events ++ newer, older, log, (List.append_assoc _ _ _).symm, hled⟩

theorem ElectedBefore.proposed {h : List Event} {i : Bytes} {entry : LogEntry}
    (hbefore : ElectedBefore h i entry) : .proposed i entry ∈ h := by
  obtain ⟨newer, older, log, rfl, -⟩ := hbefore
  exact List.mem_append_right _ List.mem_cons_self

theorem electedBefore_propose {h : List Event} {log : List LogEntry} {i : Bytes}
    {entry : LogEntry} (acknowledged : Bool) (index : ℕ) (hled : .elected i entry.term log ∈ h) :
    ElectedBefore (Cluster.proposeEvents i acknowledged index entry ++ h) i entry := by
  cases acknowledged with
  | true => exact ⟨[.acknowledged i index entry], h, log, rfl, hled⟩
  | false => exact ⟨[], h, log, rfl, hled⟩

/-- A leader asks for no votes, was elected in its term, and has only added to the log it was
elected with; and who proposed an entry had been elected in the entry's term. -/
def office : Parts where
  node r i n act := n.role = .leader →
    act.inElection = false ∧ ∃ log, .elected i n.currentTerm log ∈ r.history ∧ log <+: n.log
  request _ _ := True
  reply _ _ := True
  event r ev := ∀ i entry, ev = .proposed i entry → ElectedBefore r.history i entry

section Office

variable {cfg : ClusterConfig} {s : Cluster} {a : Cluster.Action} {i : Bytes}
  {e : Cluster.Effect}

theorem office_survive : office.Survive i s.record (s.after i e).record where
  node j n act hj hn hlead := by
    obtain ⟨hidle, log, hled, hpre⟩ := hn hlead
    exact ⟨hidle, log, List.mem_append_right _ hled, hpre⟩
  request _ _ := trivial
  reply _ _ := trivial
  event ev hev j entry heq := (hev j entry heq).append e.events

/-- Events that lead nobody propose nothing. -/
theorem not_proposed_of_silent {events : List Event} (hsilent : ∀ ev ∈ events, ev.leads = false) :
    ∀ ev ∈ events, ∀ j entry, ev ≠ .proposed j entry := by
  intro ev hev j entry heq
  have hleads := hsilent ev hev
  rw [heq] at hleads
  simp [Event.leads] at hleads

/-- **Whoever is in office was elected**, after every step. -/
theorem office_after : office.Hold s → Cluster.Course s a i e → office.Hold (s.after i e) := by
  intro hs hcourse
  have hn := hs.node i
  have hquiet : (∀ ev ∈ e.events, ∀ j entry, ev ≠ .proposed j entry) →
      ∀ ev ∈ e.events, office.event (s.after i e).record ev := by
    intro hnone ev hev j entry heq
    exact absurd heq (hnone ev hev j entry)
  cases hcourse with
  | stay hrole hterm hlog hact hsilent =>
    refine hs.after office_survive
      ⟨?_, fun _ _ => trivial, fun _ _ => trivial, hquiet (not_proposed_of_silent hsilent)⟩
    intro hlead
    obtain ⟨hidle, log, hled, hpre⟩ := hn (hrole ▸ hlead)
    refine ⟨?_, log, ?_, ?_⟩
    · by_contra hel
      exact absurd (hact (by simpa using hel)) (by simp [hidle])
    · rw [hterm]
      exact List.mem_append_right _ hled
    · rw [hlog]
      exact hpre
  | stepDown hrole hterm hlog hact hsilent =>
    refine hs.after office_survive
      ⟨?_, fun _ _ => trivial, fun _ _ => trivial, hquiet (not_proposed_of_silent hsilent)⟩
    intro hlead
    exact absurd (hrole.symm.trans hlead) (by simp)
  | stand haction hrole hterm hlog hsilent =>
    refine hs.after office_survive
      ⟨?_, fun _ _ => trivial, fun _ _ => trivial, hquiet (not_proposed_of_silent hsilent)⟩
    intro hlead
    exact absurd (hrole.symm.trans hlead) (by simp)
  | win hact hidle hterm hlog hevents =>
    refine hs.after office_survive ⟨?_, fun _ _ => trivial, fun _ _ => trivial, hquiet ?_⟩
    · intro _
      refine ⟨hidle, (s.nodes i).log, ?_, ?_⟩
      · rw [hterm, Cluster.history_record, Cluster.history_after, hevents]
        exact List.mem_append_left _ (List.mem_singleton.mpr rfl)
      · rw [hlog]
    · intro ev hev j entry heq
      rw [hevents] at hev
      rw [List.mem_singleton.mp hev] at heq
      simp at heq
  | append entry acknowledged haction hlead hentry hidle hnode hevents =>
    obtain ⟨-, log, hled, hpre⟩ := hn hlead
    refine hs.after office_survive ⟨?_, fun _ _ => trivial, fun _ _ => trivial, ?_⟩
    · intro _
      rw [hnode]
      exact ⟨hidle, log, List.mem_append_right _ hled, hpre.trans (List.prefix_append _ _)⟩
    · intro ev hev j entry' heq
      rw [hevents] at hev
      rcases Cluster.mem_proposeEvents hev with ⟨-, rfl⟩ | rfl
      · simp at heq
      · obtain ⟨rfl, rfl⟩ := Event.proposed.inj heq
        rw [Cluster.history_record, Cluster.history_after, hevents]
        exact electedBefore_propose acknowledged _ (hentry.1 ▸ hled)
  | accept call src request hrequest hle hcons hlog hrole hterm hidle hsilent =>
    refine hs.after office_survive
      ⟨?_, fun _ _ => trivial, fun _ _ => trivial, hquiet (not_proposed_of_silent hsilent)⟩
    intro hlead
    exact absurd (hrole.symm.trans hlead) (by simp)

theorem office_start (cfg : ClusterConfig) : office.Hold (Cluster.start cfg) where
  node i hlead := by simp [Cluster.start, RaftNode.new] at hlead
  request _ _ := trivial
  reply _ _ := trivial
  event _ hev := absurd hev List.not_mem_nil

theorem office_exec : ∀ {as : List Cluster.Action} {t : Cluster},
    (cluster cfg).exec (Cluster.start cfg) as = some t → office.Hold t := by
  intro as t h
  refine System.exec_invariant ?_ (office_start cfg) h
  intro s a t hs hst
  obtain ⟨i, e, hstep, rfl⟩ := Cluster.step_cases hst
  exact office_after hs hstep.course

end Office

/-! ### No entry is made up -/

/-- The entry at position `p`, counted from zero, carries its place and was proposed by a node
that had been elected in the term the entry carries. -/
def Genuine (h : List Event) (p : ℕ) (entry : LogEntry) : Prop :=
  entry.index = p + 1 ∧ ∃ i, ElectedBefore h i entry

/-- Every entry in a log, and every entry a request carries, is genuine where it stands. -/
structure NothingMadeUp (s : Cluster) : Prop where
  log : ∀ i p entry, (s.nodes i).log[p]? = some entry → Genuine s.history p entry
  request : ∀ env ∈ s.requests, ∀ request, env.body = .appendEntries request →
    ∀ k entry, request.entries[k]? = some entry →
      Genuine s.history (request.prevLogIndex.toNat + k) entry

/-- Every entry of the log has its place, and was proposed. -/
def Proposed (h : List Event) (_ : ℤ) (log : List LogEntry) : Prop :=
  ∀ (p : ℕ) (entry : LogEntry), log[p]? = some entry →
    entry.index = p + 1 ∧ ∃ i, .proposed i entry ∈ h

/-- What is put together of two lists has, at each place, what one of them has there. -/
theorem getElem?_take_append_drop {α : Type*} {front back : List α} {k p : ℕ} {x : α}
    (hk : k ≤ front.length) (h : (front.take k ++ back.drop k)[p]? = some x) :
    front[p]? = some x ∨ back[p]? = some x := by
  have hlen : (front.take k).length = k := List.length_take_of_le hk
  rcases Nat.lt_or_ge p k with hlt | hge
  · rw [List.getElem?_append_left (by omega), List.getElem?_take_of_lt hlt] at h
    exact Or.inl h
  · rw [List.getElem?_append_right (by omega), hlen, List.getElem?_drop] at h
    rw [Nat.add_sub_cancel' hge] at h
    exact Or.inr h

theorem inherited_proposed : Inherited (fun _ _ => True) Proposed where
  nil p entry h := by simp at h
  grow h events T T' log _ hlog p entry he := by
    obtain ⟨hindex, i, hprop⟩ := hlog p entry he
    exact ⟨hindex, i, List.mem_append_right _ hprop⟩
  stand _ _ _ _ hlog := hlog
  concat h i log entry hindex hprop hlog p entry' he := by
    rcases Nat.lt_or_ge p log.length with hlt | hge
    · rw [List.getElem?_append_left hlt] at he
      exact hlog p entry' he
    · rw [List.getElem?_append_right hge, List.getElem?_singleton] at he
      obtain ⟨hp, heq⟩ := Option.ite_none_right_eq_some.mp he
      have hlast : p = log.length := by omega
      rw [hlast, ← Option.some.inj heq]
      exact ⟨hindex, i, hprop⟩
  splice h T front back k hfront _ _ hf hb p entry he := by
    rcases getElem?_take_append_drop hfront he with hmem | hmem
    · exact hf p entry hmem
    · exact hb p entry hmem

section Genuine

variable {cfg : ClusterConfig} {s : Cluster}

/-- What is proposed for its place, by a node that was elected, is genuine. -/
theorem nothingMadeUp_of_proposed : office.Hold s → (inherited Proposed).Hold s →
    NothingMadeUp s := by
  intro hoffice hlogs
  have hgenuine : ∀ (log : List LogEntry) (T : ℤ), Proposed s.history T log →
      ∀ p entry, log[p]? = some entry → Genuine s.history p entry := by
    intro log T hlog p entry he
    obtain ⟨hindex, i, hprop⟩ := hlog p entry he
    exact ⟨hindex, i, hoffice.event _ hprop i entry rfl⟩
  refine ⟨fun i => hgenuine _ (s.nodes i).currentTerm (hlogs.node i), ?_⟩
  intro env henv request hbody k entry he
  obtain ⟨log, hsnap, hlog⟩ := hlogs.request env henv request hbody
  rw [hsnap.entries, List.getElem?_drop] at he
  exact hgenuine log request.term hlog _ entry he

theorem proposed_exec : ∀ {as : List Cluster.Action} {t : Cluster},
    (cluster cfg).exec (Cluster.start cfg) as = some t → (inherited Proposed).Hold t := by
  intro as t h
  have hfree : ((cluster cfg).restrict fun _ _ => True).exec (Cluster.start cfg) as = some t := by
    rw [System.exec_restrict_of_forall fun _ _ => trivial]
    exact h
  exact inherited_exec inherited_proposed hfree

end Genuine

/-- **No entry is made up**: whatever the interleaving and whichever messages are lost, late or
doubled, every entry in a log or in a request stands at the index it carries, and was proposed
by a node elected in its term. -/
theorem cluster_genuine (cfg : ClusterConfig) : ∀ (as : List Cluster.Action) (t : Cluster),
    (cluster cfg).exec (cluster cfg).init as = some t → NothingMadeUp t := by
  intro as t h
  exact nothingMadeUp_of_proposed (office_exec h) (proposed_exec h)

/-- Of the entry `A` has proposed and sent to `B`. -/
theorem cluster_genuine_sample :
    ∃ t, (cluster sampleCluster).exec (cluster sampleCluster).init sampleReplication = some t ∧
      (t.nodes (utf8 "B")).log.length = 1 ∧ NothingMadeUp t := by
  obtain ⟨t, ht, hlog⟩ := (cluster sampleCluster).exists_exec_of_any
    (cluster sampleCluster).init sampleReplication
    (fun t => (t.nodes (utf8 "B")).log.length = 1) (by decide +kernel)
  exact ⟨t, ht, of_decide_eq_true hlog, cluster_genuine sampleCluster _ t ht⟩

/-! ### The terms along a log -/

/-- Terms count from zero, do not go down along the log, and have not passed the term `T`. -/
def OrderedUpTo (_ : List Event) (T : ℤ) (log : List LogEntry) : Prop :=
  0 ≤ T ∧ Ordered log ∧ ∀ entry ∈ log, entry.term ≤ T

/-- Two ordered logs that have entries of the same term where they are put together. -/
theorem Ordered.splice : ∀ {front back : List LogEntry} {k : ℕ}, Ordered front → Ordered back →
    k ≤ front.length → k ≤ back.length →
      (∀ p, k = p + 1 → (front[p]?).map LogEntry.term = (back[p]?).map LogEntry.term) →
        Ordered (front.take k ++ back.drop k) := by
  intro front back k hfront hback hk hk' hmeet
  refine List.pairwise_append.mpr ⟨hfront.take, hback.drop, ?_⟩
  intro e he e' he'
  obtain ⟨p, hp, rfl⟩ := List.getElem_of_mem he
  obtain ⟨q, hq, rfl⟩ := List.getElem_of_mem he'
  rw [List.length_take] at hp
  rw [List.length_drop] at hq
  rw [List.getElem_take, List.getElem_drop]
  have hpairs := List.pairwise_iff_getElem.mp hfront
  have hpairs' := List.pairwise_iff_getElem.mp hback
  have hjoint : front[k - 1].term = back[k - 1].term := by
    have hterms := hmeet (k - 1) (by omega)
    rw [List.getElem?_eq_getElem (by omega), List.getElem?_eq_getElem (by omega)] at hterms
    simpa using hterms
  -- through the entry at which the two are put together
  calc front[p].term ≤ front[k - 1].term := by
        rcases Nat.lt_or_ge p (k - 1) with hlt | hge
        · exact hpairs p (k - 1) (by omega) (by omega) hlt
        · have hsame : p = k - 1 := by omega
          simp only [hsame, le_refl]
    _ = back[k - 1].term := hjoint
    _ ≤ back[k + q].term := hpairs' (k - 1) (k + q) (by omega) (by omega) (by omega)

theorem inherited_orderedUpTo : Inherited Cluster.TermFits OrderedUpTo where
  nil := ⟨le_refl _, List.Pairwise.nil, fun _ hmem => absurd hmem List.not_mem_nil⟩
  grow h events T T' log hle hlog :=
    ⟨le_trans hlog.1 hle, hlog.2.1, fun entry he => le_trans (hlog.2.2 entry he) hle⟩
  stand s i log hfits hlog := by
    have hfits : (s.nodes i).currentTerm < 2 ^ 63 - 1 := hfits
    obtain ⟨hpos, hord, hle⟩ := hlog
    rw [RaftNode.wrap64_of_lt (by omega) (by omega)]
    refine ⟨by omega, hord, ?_⟩
    intro entry he
    have := hle entry he
    omega
  concat h i log entry hindex hprop hlog := by
    obtain ⟨hpos, hord, hle⟩ := hlog
    refine ⟨hpos, List.pairwise_append.mpr ⟨hord, List.pairwise_singleton _ _, ?_⟩, ?_⟩
    · intro e he e' he'
      rw [List.mem_singleton.mp he']
      exact hle e he
    · intro e he
      rcases List.mem_append.mp he with hold | hnew
      · exact hle e hold
      · rw [List.mem_singleton.mp hnew]
  splice h T front back k hk hk' hmeet hf hb := by
    refine ⟨hf.1, hf.2.1.splice hb.2.1 hk hk' hmeet, ?_⟩
    intro e he
    rcases List.mem_append.mp he with hmem | hmem
    · exact hf.2.2 e (List.mem_of_mem_take hmem)
    · exact hb.2.2 e (List.mem_of_mem_drop hmem)

/-- **Terms do not go down along a log**, and none is later than the term of the node that has
the log: in every run in which terms do not wrap around, with one leader to a term or many. -/
theorem cluster_ordered (cfg : ClusterConfig) : ∀ (as : List Cluster.Action) (t : Cluster),
    ((cluster cfg).restrict Cluster.TermFits).exec (cluster cfg).init as = some t →
      ∀ i, Ordered (t.nodes i).log ∧
        ∀ entry ∈ (t.nodes i).log, entry.term ≤ (t.nodes i).currentTerm := by
  intro as t h i
  have hlogs := inherited_exec inherited_orderedUpTo h
  exact (hlogs.node i).2

/-- Of the log `B` has from `A`. -/
theorem cluster_ordered_sample :
    ∃ t, ((cluster sampleCluster).restrict Cluster.TermFits).exec (cluster sampleCluster).init
        sampleReplication = some t ∧
      Ordered (t.nodes (utf8 "B")).log := by
  obtain ⟨t, ht, -⟩ := ((cluster sampleCluster).restrict Cluster.TermFits).exists_exec_of_any
    (cluster sampleCluster).init sampleReplication (fun _ => true) (by decide +kernel)
  exact ⟨t, ht, (cluster_ordered sampleCluster _ t ht (utf8 "B")).1⟩

/-! ### A leader only adds to its log -/

/-- Node `i` is still leader of the term, with a log that begins with the one given, or has
left the term for good. -/
def Cluster.KeepsOffice (i : Bytes) (T : ℤ) (log : List LogEntry) (t : Cluster) : Prop :=
  (t.nodes i).role = .leader ∧ (t.nodes i).currentTerm = T ∧ log <+: (t.nodes i).log ∨
    T < (t.nodes i).currentTerm ∨
      (t.nodes i).currentTerm = T ∧ (t.nodes i).role ≠ .leader ∧
        (t.activity i).inElection = false

section KeepsOffice

variable {cfg : ClusterConfig} {s : Cluster} {a : Cluster.Action} {i : Bytes}
  {e : Cluster.Effect} {j : Bytes} {T : ℤ} {log : List LogEntry}

/-- **One step**: office is lost within a term only for good, and a log in office is only added
to. -/
theorem Cluster.KeepsOffice.after (hoffice : office.Hold s) (hpos : 0 ≤ (s.nodes i).currentTerm)
    (hfits : s.TermFits a) : s.KeepsOffice j T log → Cluster.Course s a i e →
      (s.after i e).KeepsOffice j T log := by
  intro hs hcourse
  by_cases hj : j = i
  · subst hj
    unfold KeepsOffice at hs ⊢
    rw [nodes_after_self, activity_after_self]
    cases hcourse with
    | stay hrole hterm hlog hact hsilent =>
      rw [hrole, hterm, hlog]
      rcases hs with hlead | hlater | ⟨hsame, hnot, hidle⟩
      · exact Or.inl hlead
      · exact Or.inr (Or.inl hlater)
      · refine Or.inr (Or.inr ⟨hsame, hnot, ?_⟩)
        by_contra hel
        exact absurd (hact (by simpa using hel)) (by simp [hidle])
    | stepDown hrole hterm hlog hact hsilent =>
      have hnot : e.node.role ≠ .leader := by simp [hrole]
      have hout : (s.nodes j).currentTerm = T → (s.activity j).inElection = false →
          T < e.node.currentTerm ∨ e.node.currentTerm = T ∧ e.node.role ≠ .leader ∧
            e.activity.inElection = false := by
        intro hsame hidle
        rcases lt_or_eq_of_le hterm with hlt | heq
        · exact Or.inl (hsame ▸ hlt)
        · refine Or.inr ⟨heq.symm.trans hsame, hnot, ?_⟩
          by_contra hel
          exact absurd (hact (by simpa using hel)) (by simp [hidle])
      rcases hs with ⟨hlead, hsame, -⟩ | hlater | ⟨hsame, -, hidle⟩
      · exact Or.inr (hout hsame (hoffice.node j hlead).1)
      · exact Or.inr (Or.inl (lt_of_lt_of_le hlater hterm))
      · exact Or.inr (hout hsame hidle)
    | stand haction hrole hterm hlog hsilent =>
      subst haction
      have hfits : (s.nodes j).currentTerm < 2 ^ 63 - 1 := hfits
      rw [RaftNode.wrap64_of_lt (by omega) (by omega)] at hterm
      refine Or.inr (Or.inl ?_)
      rcases hs with ⟨-, hsame, -⟩ | hlater | ⟨hsame, -, -⟩ <;> omega
    | win hact hidle hterm hlog hevents =>
      rcases hs with ⟨hlead, -, -⟩ | hlater | ⟨-, -, hout⟩
      · exact absurd (hoffice.node j hlead).1 (by simp [hact])
      · exact Or.inr (Or.inl (hterm ▸ hlater))
      · exact absurd hout (by simp [hact])
    | append entry acknowledged haction hlead hentry hidle hnode hevents =>
      rw [hnode]
      rcases hs with ⟨-, hsame, hpre⟩ | hlater | ⟨-, hnot, -⟩
      · exact Or.inl ⟨hlead, hsame, hpre.trans (List.prefix_append _ _)⟩
      · exact Or.inr (Or.inl hlater)
      · exact absurd hlead hnot
    | accept call src request hrequest hle hcons hlog hrole hterm hidle hsilent =>
      have hnot : e.node.role ≠ .leader := by simp [hrole]
      rcases eq_or_ne request.term T with heq | hne
      · rcases hs with - | hlater | -
        · exact Or.inr (Or.inr ⟨hterm.trans heq, hnot, hidle⟩)
        · omega
        · exact Or.inr (Or.inr ⟨hterm.trans heq, hnot, hidle⟩)
      · refine Or.inr (Or.inl ?_)
        rcases hs with ⟨-, hsame, -⟩ | hlater | ⟨hsame, -, -⟩ <;> omega
  · unfold KeepsOffice at hs ⊢
    rw [nodes_after_of_ne s i e hj, activity_after_of_ne s i e hj]
    exact hs

end KeepsOffice

/-- **A leader only adds to its log**: a node that is leader of a term at two moments of a run
was its leader throughout, and had at the first moment the beginning of the log it has at the
second. -/
theorem cluster_leaderAppendOnly (cfg : ClusterConfig) :
    ∀ (as bs : List Cluster.Action) (s t : Cluster),
      ((cluster cfg).restrict Cluster.TermFits).exec (cluster cfg).init as = some s →
      ((cluster cfg).restrict Cluster.TermFits).exec s bs = some t →
        ∀ i, (s.nodes i).role = .leader → (t.nodes i).role = .leader →
          (t.nodes i).currentTerm = (s.nodes i).currentTerm →
            (s.nodes i).log <+: (t.nodes i).log := by
  intro as bs s t hs ht i hlead hlead' hterm
  have hstart : office.Hold s ∧ (inherited OrderedUpTo).Hold s :=
    ⟨office_exec (System.exec_restrict hs), inherited_exec inherited_orderedUpTo hs⟩
  have hend : (office.Hold t ∧ (inherited OrderedUpTo).Hold t) ∧
      t.KeepsOffice i (s.nodes i).currentTerm (s.nodes i).log := by
    refine System.exec_invariant (I := fun u => (office.Hold u ∧ (inherited OrderedUpTo).Hold u) ∧
      u.KeepsOffice i (s.nodes i).currentTerm (s.nodes i).log) ?_
      ⟨hstart, Or.inl ⟨hlead, rfl, List.prefix_refl _⟩⟩ ht
    rintro u a v ⟨⟨hoffice, hlogs⟩, hkeeps⟩ huv
    obtain ⟨hfits, hnext⟩ := System.step_restrict.mp huv
    obtain ⟨k, e, hstep, rfl⟩ := Cluster.step_cases hnext
    exact ⟨⟨office_after hoffice hstep.course,
      inherited_after inherited_orderedUpTo hlogs hfits hstep⟩,
      hkeeps.after hoffice (hlogs.node k).1 hfits hstep.course⟩
  rcases hend.2 with ⟨-, -, hpre⟩ | hlater | ⟨-, hnot, -⟩
  · exact hpre
  · omega
  · exact absurd hlead' hnot

/-- `A` is elected, and then proposes an entry and sends it. -/
theorem cluster_leaderAppendOnly_sample :
    ∃ s t, ((cluster sampleCluster).restrict Cluster.TermFits).exec (cluster sampleCluster).init
        sampleElection = some s ∧
      ((cluster sampleCluster).restrict Cluster.TermFits).exec s
        (sampleReplication.drop sampleElection.length) = some t ∧
      (s.nodes (utf8 "A")).log <+: (t.nodes (utf8 "A")).log := by
  obtain ⟨s, hs, htest⟩ := ((cluster sampleCluster).restrict Cluster.TermFits).exists_exec_of_any
    (cluster sampleCluster).init sampleElection
    (fun s => (s.nodes (utf8 "A")).role = .leader ∧ (s.nodes (utf8 "A")).currentTerm = 1 ∧
      ((((cluster sampleCluster).restrict Cluster.TermFits).exec s
        (sampleReplication.drop sampleElection.length)).any fun t =>
          (t.nodes (utf8 "A")).role = .leader ∧ (t.nodes (utf8 "A")).currentTerm = 1) = true)
    (by decide +kernel)
  obtain ⟨hlead, hterm, hrest⟩ := of_decide_eq_true htest
  obtain ⟨t, ht, hend⟩ := ((cluster sampleCluster).restrict Cluster.TermFits).exists_exec_of_any
    s _ _ hrest
  obtain ⟨hlead', hterm'⟩ := of_decide_eq_true hend
  exact ⟨s, t, hs, ht, cluster_leaderAppendOnly sampleCluster _ _ s t hs ht (utf8 "A") hlead
    hlead' (hterm'.trans hterm.symm)⟩
