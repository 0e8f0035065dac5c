import RpcFramework.Lib.LeaderLog
import RpcFramework.Raft.Ballots

/-!
# Election safety

A leader has the votes of a majority, and a node votes once in a term, so a term has one
leader: in every run whose steps meet `VotesOnce`.  Without it a heartbeat is enough to
break this, since it clears the vote of the follower that gets it.

## Main definitions

* `ElectionSafe` — two nodes that are leaders in one term, at any moments of a run, are the
  same node.

## Main results

* `Elections.leader_unique` — the leaders written down for one term are the same.
* `cluster_electionSafe` — **election safety.**
-/

open Rpc

/-- Nodes that are leader in the same term, at any moments of a run, are the same. -/
def ElectionSafe (S : System Cluster Cluster.Action) : Prop :=
  ∀ (first second : List Cluster.Action) (s t : Cluster),
    S.exec S.init first = some s → S.exec s second = some t →
      ∀ i j, (s.nodes i).role = .leader → (t.nodes j).role = .leader →
        (s.nodes i).currentTerm = (t.nodes j).currentTerm → i = j

/-- Nodes vote once in a term, and a leader has the votes of a majority. -/
structure Elections (cfg : ClusterConfig) (h : List Event) : Prop where
  unique : ∀ v T c c', Voted h v T c → Voted h v T c' → c = c'
  majority : ∀ c T log, .elected c T log ∈ h →
    ∃ Q, IsMajority cfg.members.toFinset Q ∧
      ∀ v ∈ Q, ∃ voterLog, .voted v T c voterLog ∈ h ∧ UpToDate LogEntry.term voterLog log

section Elections

variable {cfg : ClusterConfig} {h events : List Event}

/-- **A term has one leader.** -/
theorem Elections.leader_unique (he : Elections cfg h) {c c' : Bytes} {T : ℤ}
    {log log' : List LogEntry} (hc : .elected c T log ∈ h) (hc' : .elected c' T log' ∈ h) :
    c = c' := by
  obtain ⟨Q, hQ, hvoted⟩ := he.majority c T log hc
  obtain ⟨Q', hQ', hvoted'⟩ := he.majority c' T log' hc'
  have honce : ∀ v c c', Voted h v T c → Voted h v T c' → c = c' :=
    fun v c c' => he.unique v T c c'
  refine IsMajority.unique honce hQ ?_ hQ' ?_
  · intro v hv
    obtain ⟨voterLog, hlog, -⟩ := hvoted v hv
    exact ⟨voterLog, hlog⟩
  · intro v hv
    obtain ⟨voterLog, hlog, -⟩ := hvoted' v hv
    exact ⟨voterLog, hlog⟩

/-- New votes must not contradict those cast, and new leaders must have their majority. -/
theorem Elections.append (he : Elections cfg h)
    (hvoted : ∀ v T c log, .voted v T c log ∈ events → ∀ c', Voted (events ++ h) v T c' → c' = c)
    (helected : ∀ c T log, .elected c T log ∈ events →
      ∃ Q, IsMajority cfg.members.toFinset Q ∧
        ∀ v ∈ Q, ∃ voterLog, .voted v T c voterLog ∈ h ∧ UpToDate LogEntry.term voterLog log) :
    Elections cfg (events ++ h) where
  unique v T c c' := by
    rintro ⟨log, hlog⟩ ⟨log', hlog'⟩
    rcases List.mem_append.mp hlog with hnew | hold
    · exact (hvoted v T c log hnew c' ⟨log', hlog'⟩).symm
    · rcases List.mem_append.mp hlog' with hnew' | hold'
      · exact hvoted v T c' log' hnew' c ⟨log, hlog⟩
      · exact he.unique v T c c' ⟨log, hold⟩ ⟨log', hold'⟩
  majority c T log hc := by
    have hQ : ∃ Q, IsMajority cfg.members.toFinset Q ∧
        ∀ v ∈ Q, ∃ voterLog, .voted v T c voterLog ∈ h ∧ UpToDate LogEntry.term voterLog log := by
      rcases List.mem_append.mp hc with hnew | hold
      · exact helected c T log hnew
      · exact he.majority c T log hold
    obtain ⟨Q, hQ, hvotes⟩ := hQ
    refine ⟨Q, hQ, fun v hv => ?_⟩
    obtain ⟨voterLog, hlog, hup⟩ := hvotes v hv
    exact ⟨voterLog, List.mem_append_right events hlog, hup⟩

/-- A step that writes down no vote and no election keeps them. -/
theorem Elections.append_quiet (he : Elections cfg h) (hq : ∀ ev ∈ events, ev.ballot = false) :
    Elections cfg (events ++ h) := by
  refine he.append ?_ ?_
  · intro v T c log hnew
    exact absurd (hq _ hnew) (by simp [Event.ballot])
  · intro c T log hnew
    exact absurd (hq _ hnew) (by simp [Event.ballot])

/-- A vote in a term later than all the voter has voted in contradicts none. -/
theorem Elections.append_vote (he : Elections cfg h) {v c : Bytes} {T : ℤ} {log : List LogEntry}
    (hnew : ∀ c', Voted h v T c' → c' = c) : Elections cfg ([.voted v T c log] ++ h) := by
  refine he.append ?_ ?_
  · intro v' T' c₁ log' hmem c₂ hc₂
    obtain ⟨rfl, rfl, rfl, rfl⟩ := Event.voted.inj (List.mem_singleton.mp hmem)
    obtain ⟨log₂, hlog₂⟩ := hc₂
    rcases List.mem_append.mp hlog₂ with hmem₂ | hold
    · exact (Event.voted.inj (List.mem_singleton.mp hmem₂)).2.2.1
    · exact hnew c₂ ⟨log₂, hold⟩
  · intro c' T' log' hmem
    exact absurd (List.mem_singleton.mp hmem) (by simp)

end Elections

section Steps

variable {cfg : ClusterConfig} {s : Cluster} {i : Bytes}

/-- A vote that is granted contradicts none of the voter's votes in the term. -/
theorem vote_unique {n n' : RaftNode} {request : RequestVoteRequest}
    {response : RequestVoteResponse} {h : List Event} (hn : Voter cfg h i n)
    (he : Elections cfg h) (heq : n.handleRequestVote request = (n', response))
    (hgranted : response.voteGranted = true)
    (hremembered : request.term = n.currentTerm → n.votedFor = [] → RaftNode.logOk n.log request →
      ∀ ev ∈ h, Event.otherVote i request.term request.candidateId ev = false)
    {c : Bytes} (hc : Voted h i request.term c) : c = request.candidateId := by
  rcases n.handleRequestVote_cases request with
    ⟨-, hcase⟩ | ⟨-, hcase⟩ | ⟨hterm, hcan, hok, -⟩
  · obtain ⟨rfl, rfl⟩ := Prod.mk.inj (hcase.symm.trans heq)
    simp at hgranted
  · obtain ⟨rfl, rfl⟩ := Prod.mk.inj (hcase.symm.trans heq)
    simp at hgranted
  · have hle := hn.voted_le _ _ hc
    have hcur : request.term = n.currentTerm := le_antisymm hle hterm
    -- the term stays, so the vote of the node as it was decides
    have hsame : n.observeTerm request.term = n := by
      rcases n.observeTerm_eq_or request.term with hobs | ⟨hlt, -⟩
      · exact hobs
      · omega
    rw [hsame] at hcan
    by_cases hnone : n.votedFor = []
    · obtain ⟨log, hlog⟩ := hc
      have hother := hremembered hcur hnone hok _ hlog
      simpa [Event.otherVote] using hother
    · have hvoted := hn.votedFor hnone
      rcases hcan with hempty | hsome
      · exact absurd hempty hnone
      · rw [← hsome]
        rw [hcur] at hc
        exact he.unique i _ _ _ hc hvoted

/-- Who voted in a poll did so with a log that the candidate's is up to date with. -/
theorem Poll.exists_voted {h : List Event} {n : RaftNode} {request : RequestVoteRequest}
    {voters : Finset Bytes} {pending : List RaftPeer} (hp : Poll cfg h i n request voters pending)
    {v : Bytes} (hv : v ∈ voters) :
    ∃ log, .voted v request.term i log ∈ h ∧ UpToDate LogEntry.term log n.log := by
  obtain ⟨-, log, hlog, hok⟩ := hp.granted v hv
  rw [hp.candidate] at hlog
  rw [RaftNode.logOk, hp.lastLogTerm, hp.lastLogIndex] at hok
  refine ⟨log, hlog, ?_⟩
  rcases hok with hlater | ⟨hsame, hlen⟩
  · exact Or.inl hlater
  · exact Or.inr ⟨hsame, by exact_mod_cast hlen⟩

/-- **Votes are cast once, and leaders have a majority, after every step.** -/
theorem elections_after {a : Cluster.Action} {e : Cluster.Effect} (hb : (ballots cfg).Hold s)
    (he : Elections cfg s.history) (hguard : s.VotesOnce a) (hstep : Cluster.Step cfg s a i e) :
    Elections cfg (s.after i e).history := by
  obtain ⟨hfits, hremembered, hwins⟩ := hguard
  obtain ⟨hvoter, hpolling⟩ := hb.node i
  cases hstep with
  | electionTimeout i hmem hidle hrole =>
    refine he.append_vote fun c hc => ?_
    have hle := hvoter.voted_le _ _ hc
    obtain ⟨-, hterm⟩ := hvoter.currentTerm_startElection hfits
    omega
  | winElection i request votes hact hwin =>
    rw [hact] at hpolling
    obtain ⟨voters, hcard, hpoll⟩ := hpolling
    have hterm : (s.nodes i).currentTerm = request.term := by
      simp only [Cluster.WinsItsTerm, hact] at hwins
      exact hwins hwin
    refine he.append ?_ ?_
    · intro v T c log hmem
      exact absurd (List.mem_singleton.mp hmem) (by simp)
    · intro c T log hmem
      obtain ⟨rfl, rfl, rfl⟩ := Event.elected.inj (List.mem_singleton.mp hmem)
      refine ⟨voters, hpoll.isMajority hvoter (hcard ▸ hwin), fun v hv => ?_⟩
      rw [hterm]
      exact hpoll.exists_voted hv
  | deliverVote call src i request n response hrequest hidle hhandle =>
    simp only [Cluster.VoteRemembered, hrequest] at hremembered
    by_cases hgranted : response.voteGranted = true
    · simp only [Cluster.history_after, Cluster.voteEvents, hgranted, if_true]
      exact he.append_vote fun c hc => vote_unique hvoter he hhandle hgranted hremembered hc
    · simp only [Cluster.history_after, Cluster.voteEvents, if_neg hgranted]
      exact he
  | sendRequestVote | receiveVote | loseVote | failElection | startHeartbeat | sendAppendEntries
  | receiveAppend | loseAppend | finishHeartbeat | refuse => exact he
  | deliverAppend call src i request n response hrequest hidle hhandle =>
    refine he.append_quiet fun ev hev => ?_
    rw [(Cluster.mem_appendEvents hev).2]
    rfl
  | propose i operation entry acknowledged hmem hidle hrole hterm hindex =>
    refine he.append_quiet fun ev hev => ?_
    rcases Cluster.mem_proposeEvents hev with ⟨-, rfl⟩ | rfl
    · rfl
    · rfl
  | applyCommitted i hact =>
    refine he.append_quiet fun ev hev => ?_
    obtain ⟨p, -, rfl⟩ := List.mem_map.mp hev
    rfl

theorem elections_exec {guard : Cluster → Cluster.Action → Prop} [∀ s a, Decidable (guard s a)]
    (hguard : ∀ s a, guard s a → s.VotesOnce a) {as : List Cluster.Action} {t : Cluster}
    (h : ((cluster cfg).restrict guard).exec (Cluster.start cfg) as = some t) :
    (ballots cfg).Hold t ∧ Elections cfg t.history := by
  refine System.exec_invariant (I := fun s => (ballots cfg).Hold s ∧ Elections cfg s.history)
    ?_ ⟨ballots_start cfg, ?_⟩ h
  · rintro s a t ⟨hb, he⟩ hst
    obtain ⟨hg, hnext⟩ := System.step_restrict.mp hst
    obtain ⟨i, e, hstep, rfl⟩ := Cluster.step_cases hnext
    have honce := hguard s a hg
    exact ⟨ballots_after hb honce.1 hstep, elections_after hb he honce hstep⟩
  · refine ⟨?_, fun c T log hc => absurd hc List.not_mem_nil⟩
    rintro v T c c' ⟨log, hlog⟩
    exact absurd hlog List.not_mem_nil

end Steps

/-- **Election safety**: where nodes vote once and elections are won in their own term, a
term has one leader. -/
theorem cluster_electionSafe (cfg : ClusterConfig) :
    ElectionSafe ((cluster cfg).restrict Cluster.VotesOnce) := by
  intro first second s t hs ht i j hi hj hterm
  have hreach : ((cluster cfg).restrict Cluster.VotesOnce).exec (Cluster.start cfg)
      (first ++ second) = some t := by
    rw [System.exec_append]
    exact Option.bind_eq_some_iff.mpr ⟨s, hs, ht⟩
  obtain ⟨hbs, -⟩ := elections_exec (fun _ _ h => h) hs
  obtain ⟨hbt, het⟩ := elections_exec (fun _ _ h => h) hreach
  -- the earlier leader is still written down when the later one is
  have hmono : s.history <:+ t.history := Cluster.history_exec (System.exec_restrict ht)
  obtain ⟨log, hlog⟩ := (hbs.node i).1.leader hi
  obtain ⟨log', hlog'⟩ := (hbt.node j).1.leader hj
  rw [hterm] at hlog
  exact het.leader_unique (hmono.subset hlog) hlog'

/-! ### Two leaders -/

/-- A cluster of three nodes, `A`, `B` and `C`. -/
def sampleCluster : ClusterConfig where
  members := [utf8 "A", utf8 "B", utf8 "C"]
  nodup := by decide +kernel
  host _ := utf8 "127.0.0.1"
  port _ := 9000
  peers i := [utf8 "A", utf8 "B", utf8 "C"].erase i
  peers_perm _ _ := List.Perm.refl _

/-- `A` becomes leader of the first term with the vote of `B`. -/
def sampleElection : List Cluster.Action :=
  [.electionTimeout (utf8 "A"), .sendRequestVote (utf8 "A"), .deliver 0,
    .receiveVote (utf8 "A") 0, .sendRequestVote (utf8 "A"), .loseVote (utf8 "A"),
    .finishElection (utf8 "A")]

/-- `A` sends `B` a heartbeat, which clears the vote of `B`; then `C`, which has heard
nothing, stands in the same term and gets the vote of `B` too. -/
def sampleSecondElection : List Cluster.Action :=
  [.startHeartbeat (utf8 "A"), .sendAppendEntries (utf8 "A"), .deliver 2,
    .electionTimeout (utf8 "C"), .sendRequestVote (utf8 "C"), .loseVote (utf8 "C"),
    .sendRequestVote (utf8 "C"), .deliver 4, .receiveVote (utf8 "C") 2,
    .finishElection (utf8 "C")]

/-- The node is leader of the term. -/
def Cluster.leads (s : Cluster) (i : Bytes) (term : ℤ) : Bool :=
  (s.nodes i).role = .leader ∧ (s.nodes i).currentTerm = term

/-- Then `B` stands in the second term and gets the vote of `A`, which steps down. -/
def sampleSuccession : List Cluster.Action :=
  [.electionTimeout (utf8 "B"), .sendRequestVote (utf8 "B"), .deliver 2,
    .receiveVote (utf8 "B") 1, .sendRequestVote (utf8 "B"), .loseVote (utf8 "B"),
    .finishElection (utf8 "B")]

/-- Each of the two terms has its leader, and no other. -/
theorem cluster_electionSafe_sample :
    ∃ s t, ((cluster sampleCluster).restrict Cluster.VotesOnce).exec
        (Cluster.start sampleCluster) sampleElection = some s ∧
      ((cluster sampleCluster).restrict Cluster.VotesOnce).exec s sampleSuccession = some t ∧
      s.leads (utf8 "A") 1 = true ∧ t.leads (utf8 "B") 2 = true ∧
      ∀ j, (t.leads j 1 = true → j = utf8 "A") ∧ (t.leads j 2 = true → j = utf8 "B") := by
  have hsafe := cluster_electionSafe sampleCluster
  obtain ⟨s, hs, hrest⟩ := ((cluster sampleCluster).restrict
    Cluster.VotesOnce).exists_exec_of_any (Cluster.start sampleCluster) sampleElection
    (fun s => s.leads (utf8 "A") 1 &&
      (((cluster sampleCluster).restrict Cluster.VotesOnce).exec s sampleSuccession).any
        fun t => t.leads (utf8 "B") 2) (by decide +kernel)
  rw [Bool.and_eq_true] at hrest
  obtain ⟨hA, hrest⟩ := hrest
  obtain ⟨t, ht, hB⟩ := ((cluster sampleCluster).restrict
    Cluster.VotesOnce).exists_exec_of_any _ _ _ hrest
  obtain ⟨hleadA, htermA⟩ := of_decide_eq_true hA
  obtain ⟨hleadB, htermB⟩ := of_decide_eq_true hB
  refine ⟨s, t, hs, ht, hA, hB, fun j => ⟨fun hj => ?_, fun hj => ?_⟩⟩
  · obtain ⟨hlead, hterm⟩ := of_decide_eq_true hj
    exact (hsafe _ _ s t hs ht _ j hleadA hlead (htermA.trans hterm.symm)).symm
  · obtain ⟨hlead, hterm⟩ := of_decide_eq_true hj
    have hboth : ((cluster sampleCluster).restrict Cluster.VotesOnce).exec
        (Cluster.start sampleCluster) (sampleElection ++ sampleSuccession) = some t := by
      rw [System.exec_append, hs]
      exact ht
    exact (hsafe _ [] t t hboth rfl _ j hleadB hlead (htermB.trans hterm.symm)).symm

/-- The term has two leaders. -/
theorem sampleCluster_twoLeaders : ¬ ElectionSafe (cluster sampleCluster) := by
  intro hsafe
  obtain ⟨s, hs, hrest⟩ := (cluster sampleCluster).exists_exec_of_any
    (Cluster.start sampleCluster) sampleElection
    (fun s => s.leads (utf8 "A") 1 &&
      ((cluster sampleCluster).exec s sampleSecondElection).any fun t => t.leads (utf8 "C") 1)
    (by decide +kernel)
  rw [Bool.and_eq_true] at hrest
  obtain ⟨hA, hrest⟩ := hrest
  obtain ⟨t, ht, hC⟩ := (cluster sampleCluster).exists_exec_of_any _ _ _ hrest
  simp only [Cluster.leads, decide_eq_true_eq] at hA hC
  have heq := hsafe _ _ s t hs ht _ _ hA.1 hC.1 (hA.2.trans hC.2.symm)
  exact absurd heq (by decide +kernel)
