import RpcFramework.Raft.Election

/-!
# Log matching

As long as a term has one leader, logs with an entry of the same term at the same position
agree up to it, and every entry carries its position.  Neither lost votes nor heartbeat
rounds of deposed leaders spoil this: what a request carries is the log of its sender, a
log like any other, and the consistency check splices it to logs that agree with it.

## Main definitions

* `facts`, `canon` — what was written down of leaders, and their logs.
* `Snapshot` — a request that carries a log from some position on.
* `matching` — the invariant.

## Main results

* `Snapshot.accept` — what accepting such a request comes to.
* `matching_after`, `matching_exec` — the invariant holds along every run.
* `cluster_logMatching` — **log matching.**
-/

open Rpc

/-- What an event says about logs. -/
def Event.fact : Event → Option (LogFact Bytes LogEntry)
  | .voted v T c log => some (.voted v T c log)
  | .elected i T log => some (.elected i T log)
  | .proposed i entry => some (.proposed i entry)
  | .accepted i T log => some (.accepted i T log)
  | _ => none

/-- The event that says it. -/
def LogFact.event : LogFact Bytes LogEntry → Event
  | .voted v T c log => .voted v T c log
  | .elected i T log => .elected i T log
  | .proposed i entry => .proposed i entry
  | .accepted i T log => .accepted i T log

def facts (h : List Event) : List (LogFact Bytes LogEntry) := h.filterMap Event.fact

/-- The log of each term's leader. -/
def canon (h : List Event) : ℤ → List LogEntry := leaderLog LogEntry.term (facts h)

/-- A term has one leader. -/
def LeadersUnique (h : List Event) : Prop :=
  ∀ c c' T log log', .elected c T log ∈ h → .elected c' T log' ∈ h → c = c'

/-- Every entry carries its position, and a term that somebody led. -/
def Numbered (l : List LogEntry) : Prop :=
  ∀ (p : ℕ) (e : LogEntry), l[p]? = some e → e.index = p + 1 ∧ 0 < e.term

/-- The request carries what the log has behind the request's `prevLogIndex`. -/
structure Snapshot (log : List LogEntry) (request : AppendEntriesRequest) : Prop where
  nonneg : 0 ≤ request.prevLogIndex
  entries : request.entries = log.drop request.prevLogIndex.toNat
  attach : ∀ p e, request.prevLogIndex.toNat = p + 1 → log[p]? = some e →
    request.prevLogTerm = e.term
  beyond : log.length < request.prevLogIndex.toNat → request.prevLogTerm = 0

/-- The log agrees with the leaders of its entries; a leader's is that of its term. -/
structure Matching (h : List Event) (i : Bytes) (n : RaftNode) : Prop where
  conforms : Conforms LogEntry.term (canon h) n.log
  numbered : Numbered n.log
  leader : n.role = .leader →
    n.log = canon h n.currentTerm ∧ ∃ log, .elected i n.currentTerm log ∈ h

/-- The invariant. -/
def matching : Parts where
  node r i n _ := Matching r.history i n
  request r env := ∀ request, env.body = .appendEntries request →
    ∃ log, Snapshot log request ∧ Conforms LogEntry.term (canon r.history) log ∧ Numbered log
  reply _ _ := True
  event r ev := ∀ i entry, ev = .proposed i entry → ∃ log, .elected i entry.term log ∈ r.history

/-! ### Snapshots -/

section Snapshot

theorem numbered_nil : Numbered [] := by
  intro p e he
  simp at he

/-- The request a node builds carries its own log. -/
theorem RaftNode.appendEntriesRequest_snapshot {n : RaftNode} {i : ℕ}
    {request : AppendEntriesRequest} (h : n.appendEntriesRequest i = some request) :
    Snapshot n.log request ∧ request.term = n.currentTerm ∧
      request.leaderCommit = n.commitIndex := by
  obtain ⟨next, -, h⟩ := Option.bind_eq_some_iff.mp h
  split at h
  · simp at h
  · next hnext =>
    obtain rfl := Option.some.inj h
    refine ⟨⟨by simp only; omega, rfl, ?_, ?_⟩, rfl, rfl⟩
    · intro p e hp he
      obtain ⟨hlt, -⟩ := List.getElem?_eq_some_iff.mp he
      simp only at hp
      have hbounds : 0 < next - 1 ∧ next - 1 ≤ n.log.length := by omega
      have hindex : (next - 1 - 1).toNat = p := by omega
      simp only [if_pos hbounds, hindex, he, Option.elim_some]
    · intro hlt
      simp only at hlt
      have hbounds : ¬ (0 < next - 1 ∧ next - 1 ≤ n.log.length) := by omega
      simp only [if_neg hbounds]

variable {f : ℤ → List LogEntry} {l l' log : List LogEntry} {request : AppendEntriesRequest}

/-- Where a snapshot attaches, it agrees with the log it attaches to. -/
theorem Snapshot.take_eq (hs : Snapshot log request) (hlog : Conforms LogEntry.term f log)
    (hl : Conforms LogEntry.term f l) (hnum : Numbered l)
    (hcons : RaftNode.logConsistent l request) :
    request.prevLogIndex.toNat ≤ log.length ∧
      l.take request.prevLogIndex.toNat = log.take request.prevLogIndex.toNat := by
  have hnonneg := hs.nonneg
  cases hk : request.prevLogIndex.toNat with
  | zero => exact ⟨Nat.zero_le _, rfl⟩
  | succ p =>
    obtain ⟨-, hterm⟩ := hcons (by omega)
    have hindex : (request.prevLogIndex - 1).toNat = p := by omega
    rw [hindex, Option.map_eq_some_iff] at hterm
    obtain ⟨e, he, hterm⟩ := hterm
    -- past the end of the snapshot the term sent is zero, which no entry has
    have hlt : p < log.length := by
      by_contra hge
      have hzero := hs.beyond (by omega)
      have hpos := (hnum p e he).2
      omega
    have he' : log[p]? = some log[p] := List.getElem?_eq_getElem hlt
    have hterm' := hs.attach p _ hk he'
    exact ⟨hlt, hl.take_eq hlog he he' (hterm.trans hterm')⟩

/-- **Accepting a snapshot** leaves the log of its sender, or, if it brings no entries, a log
that begins with it. -/
theorem Snapshot.accept (hs : Snapshot log request) (hlog : Conforms LogEntry.term f log)
    (hl : Conforms LogEntry.term f l) (hnum : Numbered l)
    (hcons : RaftNode.logConsistent l request) (h : RaftNode.replaceEntries l request = some l') :
    request.entries ≠ [] ∧ l' = log ∨ request.entries = [] ∧ l' = l ∧ log <+: l := by
  obtain ⟨hle, htake⟩ := hs.take_eq hlog hl hnum hcons
  unfold RaftNode.replaceEntries at h
  split at h
  · next hnil =>
    refine Or.inr ⟨hnil, (Option.some.inj h).symm, ?_⟩
    have hdrop : log.drop request.prevLogIndex.toNat = [] := hs.entries.symm.trans hnil
    have hall : log.take request.prevLogIndex.toNat = log :=
      List.take_of_length_le (List.drop_eq_nil_iff.mp hdrop)
    rw [← hall, ← htake]
    exact List.take_prefix _ _
  · next hne =>
    split at h
    · simp at h
    · refine Or.inl ⟨hne, ?_⟩
      rw [← Option.some.inj h, htake, hs.entries, List.take_append_drop]

end Snapshot

/-! ### Growth of the history -/

section Growth

variable {h events : List Event} {i : Bytes} {T : ℤ}

theorem facts_append : facts (events ++ h) = facts events ++ facts h := List.filterMap_append

theorem Event.fact_eq_some {ev : Event} {f : LogFact Bytes LogEntry} :
    ev.fact = some f ↔ ev = f.event := by
  cases ev <;> cases f <;> simp [Event.fact, LogFact.event]

/-- What the history says about logs, it says in so many events. -/
theorem mem_facts {f : LogFact Bytes LogEntry} : f ∈ facts h ↔ f.event ∈ h := by
  rw [facts, List.mem_filterMap]
  constructor
  · rintro ⟨ev, hev, hfact⟩
    rw [← Event.fact_eq_some.mp hfact]
    exact hev
  · intro hmem
    exact ⟨f.event, hmem, Event.fact_eq_some.mpr rfl⟩

/-- The event adds to the log of a leader. -/
def Event.leads : Event → Bool
  | .elected .. => true
  | .proposed .. => true
  | _ => false

theorem canon_append_of_silent (hsilent : ∀ ev ∈ events, ev.leads = false) :
    canon (events ++ h) = canon h := by
  funext U
  induction events with
  | nil => rfl
  | cons ev events ih =>
    have hrest := ih fun e he => hsilent e (List.mem_cons_of_mem ev he)
    have hev := hsilent ev List.mem_cons_self
    cases ev with
    | elected | proposed => simp [Event.leads] at hev
    | voted | accepted | acknowledged | applied => exact hrest

theorem LeadersUnique.of_append (hu : LeadersUnique (events ++ h)) : LeadersUnique h :=
  fun c c' T log log' hc hc' =>
    hu c c' T log log' (List.mem_append_right _ hc) (List.mem_append_right _ hc')

/-- What the other nodes and the network have outlasts a step: leaders' logs only grow, and
those of other leaders stay. -/
theorem matching_survive {s : Cluster} {e : Cluster.Effect}
    (hgrow : ∀ T, canon s.history T <+: canon (e.events ++ s.history) T)
    (hothers : ∀ j T log, j ≠ i → .elected j T log ∈ s.history →
      canon (e.events ++ s.history) T = canon s.history T) :
    matching.Survive i s.record (s.after i e).record where
  node j n a hj hn := by
    refine ⟨hn.conforms.mono hgrow, hn.numbered, fun hrole => ?_⟩
    obtain ⟨hlog, log, hled⟩ := hn.leader hrole
    refine ⟨?_, log, List.mem_append_right _ hled⟩
    exact hlog.trans (hothers j _ log hj hled).symm
  request env henv request hbody := by
    obtain ⟨log, hsnap, hconf, hnum⟩ := henv request hbody
    exact ⟨log, hsnap, hconf.mono hgrow, hnum⟩
  reply _ _ := trivial
  event ev hev i entry heq := by
    obtain ⟨log, hled⟩ := hev i entry heq
    exact ⟨log, List.mem_append_right _ hled⟩

theorem matching_survive_of_silent {s : Cluster} {e : Cluster.Effect}
    (hsilent : ∀ ev ∈ e.events, ev.leads = false) :
    matching.Survive i s.record (s.after i e).record := by
  refine matching_survive ?_ ?_
  · intro T
    rw [canon_append_of_silent hsilent]
  · intro j T log _ _
    rw [canon_append_of_silent hsilent]

end Growth

/-! ### The steps -/

section Steps

variable {cfg : ClusterConfig} {s : Cluster} {h events : List Event} {i : Bytes} {n n' : RaftNode}

/-- Log matching concerns the log, and the role and term of a leader. -/
theorem Matching.congr (hn : Matching h i n) (hlog : n'.log = n.log)
    (hrole : n'.role = .leader → n.role = .leader ∧ n'.currentTerm = n.currentTerm) :
    Matching h i n' where
  conforms := by rw [hlog]; exact hn.conforms
  numbered := by rw [hlog]; exact hn.numbered
  leader hlead := by
    obtain ⟨hlead', hterm⟩ := hrole hlead
    rw [hlog, hterm]
    exact hn.leader hlead'

theorem Matching.append_of_silent (hn : Matching h i n)
    (hsilent : ∀ ev ∈ events, ev.leads = false) : Matching (events ++ h) i n where
  conforms := by rw [canon_append_of_silent hsilent]; exact hn.conforms
  numbered := hn.numbered
  leader hlead := by
    obtain ⟨hlog, log, hled⟩ := hn.leader hlead
    rw [canon_append_of_silent hsilent]
    exact ⟨hlog, log, List.mem_append_right _ hled⟩

theorem Matching.becomeFollower (hn : Matching h i n) (term : ℤ) (leaderId : Bytes) :
    Matching h i (n.becomeFollower term leaderId) :=
  hn.congr rfl fun hlead => absurd hlead (by simp [RaftNode.becomeFollower])

theorem Matching.handleRequestVote (hn : Matching h i n) {request : RequestVoteRequest}
    {response : RequestVoteResponse} (heq : n.handleRequestVote request = (n', response)) :
    Matching h i n' := by
  have hobs : Matching h i (n.observeTerm request.term) := by
    rcases n.observeTerm_eq_or request.term with hsame | ⟨-, hfollow⟩
    · rw [hsame]
      exact hn
    · rw [hfollow]
      exact hn.becomeFollower request.term []
  rcases n.handleRequestVote_cases request with ⟨-, hcase⟩ | ⟨-, hcase⟩ | ⟨-, -, -, hcase⟩
  · obtain ⟨rfl, -⟩ := Prod.mk.inj (hcase.symm.trans heq)
    exact hn
  · obtain ⟨rfl, -⟩ := Prod.mk.inj (hcase.symm.trans heq)
    exact hobs
  · obtain ⟨rfl, -⟩ := Prod.mk.inj (hcase.symm.trans heq)
    exact hobs.congr rfl fun hlead => ⟨hlead, rfl⟩

theorem Matching.handleAppendReply (hn : Matching h i n) (peer : RaftPeer)
    (response : AppendEntriesResponse) : Matching h i (n.handleAppendReply peer response) := by
  rcases n.handleAppendReply_cases peer response with
    ⟨-, heq⟩ | ⟨-, ⟨k, next, -, heq⟩ | ⟨-, k, -, heq⟩⟩
  · rw [heq]
    exact hn.becomeFollower response.term []
  · rw [heq]
    exact hn.congr rfl fun hlead => ⟨hlead, rfl⟩
  · rw [heq]
    unfold RaftNode.updateCommitIndex
    split
    · exact hn.congr rfl fun hlead => ⟨hlead, rfl⟩
    · exact hn.congr rfl fun hlead => ⟨hlead, rfl⟩

/-- A node that accepts what a log of the cluster carries has a log of the cluster. -/
theorem Matching.handleAppendEntries (hn : Matching h i n) {request : AppendEntriesRequest}
    {response : AppendEntriesResponse} {log : List LogEntry} (hsnap : Snapshot log request)
    (hlog : Conforms LogEntry.term (canon h) log) (hnum : Numbered log)
    (heq : n.handleAppendEntries request = some (n', response)) : Matching h i n' := by
  rcases RaftNode.handleAppendEntries_cases heq with
    ⟨-, rfl, -⟩ | ⟨-, -, rfl, -⟩ | ⟨-, hcons, log', hreplace, rfl, -⟩
  · exact hn
  · exact hn.becomeFollower request.term request.leaderId
  · rcases hsnap.accept hlog hn.conforms hn.numbered hcons hreplace with
      ⟨-, rfl⟩ | ⟨-, rfl, -⟩
    · refine ⟨hlog, hnum, fun hlead => ?_⟩
      simp [RaftNode.becomeFollower] at hlead
    · exact (hn.becomeFollower request.term request.leaderId).congr rfl fun hlead => ⟨hlead, rfl⟩

theorem Numbered.concat {l : List LogEntry} (hl : Numbered l) {entry : LogEntry}
    (hindex : entry.index = l.length + 1) (hterm : 0 < entry.term) : Numbered (l ++ [entry]) := by
  intro p e he
  rcases Nat.lt_or_ge p l.length with hlt | hge
  · rw [List.getElem?_append_left hlt] at he
    exact hl p e he
  · rw [List.getElem?_append_right hge] at he
    obtain ⟨hlt, hget⟩ := List.getElem?_eq_some_iff.mp he
    have hp : p = l.length := by
      simp only [List.length_singleton] at hlt
      omega
    have hentry : entry = e := by simpa using hget
    rw [← hentry, hp]
    exact ⟨hindex, hterm⟩

/-- The step rule for the steps that leave the logs of leaders alone. -/
theorem matching_after_of_silent {e : Cluster.Effect} (hm : matching.Hold s)
    (hsilent : ∀ ev ∈ e.events, ev.leads = false) (hnode : Matching s.history i e.node)
    (hrequests : ∀ env ∈ e.requests, matching.request s.record env) :
    matching.Hold (s.after i e) := by
  refine hm.after (matching_survive_of_silent hsilent)
    ⟨hnode.append_of_silent hsilent, ?_, fun _ _ => trivial, ?_⟩
  · intro env henv
    exact (matching_survive_of_silent (i := i) hsilent).request env (hrequests env henv)
  · rintro ev hev j entry rfl
    exact absurd (hsilent _ hev) (by simp [Event.leads])

/-- Nobody has led, or written in, the term of a node that wins an election. -/
theorem canon_eq_nil_of_win {request : RequestVoteRequest} {votes : ℕ} {log : List LogEntry}
    (hb : (ballots cfg).Hold s) (hm : matching.Hold s)
    (hact : s.activity i = .electing request [] votes)
    (hunique : LeadersUnique (.elected i (s.nodes i).currentTerm log :: s.history)) :
    (∀ c log', .elected c (s.nodes i).currentTerm log' ∉ s.history) ∧
      canon s.history (s.nodes i).currentTerm = [] := by
  obtain ⟨hvoter, hpolling⟩ := hb.node i
  rw [hact] at hpolling
  obtain ⟨voters, -, hpoll⟩ := hpolling
  have hnone : ∀ c log', .elected c (s.nodes i).currentTerm log' ∉ s.history := by
    intro c log' hmem
    have hc : c = i := hunique c i _ log' log (List.mem_cons_of_mem _ hmem) List.mem_cons_self
    subst hc
    have hlt := hpoll.fresh _ log' hmem
    have hle := hpoll.term_le
    omega
  refine ⟨hnone, leaderLog_eq_nil ?_ ?_⟩
  · intro c log' hmem
    exact hnone c log' (mem_facts.mp hmem)
  · intro c e hmem hterm
    obtain ⟨log', hled⟩ := hm.event _ (mem_facts.mp hmem) c e rfl
    rw [hterm] at hled
    exact hnone c log' hled

/-- The log of a term begins with its election. -/
theorem matching_after_win {request : RequestVoteRequest} {votes : ℕ} (hb : (ballots cfg).Hold s)
    (hm : matching.Hold s) (hact : s.activity i = .electing request [] votes)
    (hunique :
      LeadersUnique (.elected i (s.nodes i).currentTerm (s.nodes i).log :: s.history)) :
    matching.Hold (s.after i
      { node := (s.nodes i).becomeLeader
        activity := .idle
        events := [.elected i (s.nodes i).currentTerm (s.nodes i).log] }) := by
  have hn : Matching s.history i (s.nodes i) := hm.node i
  obtain ⟨hnone, hnil⟩ := canon_eq_nil_of_win hb hm hact hunique
  have hcanon : ∀ T, canon (.elected i (s.nodes i).currentTerm (s.nodes i).log :: s.history) T =
      if (s.nodes i).currentTerm = T then (s.nodes i).log else canon s.history T :=
    fun T => leaderLog_elected
  have hgrow : ∀ T, canon s.history T <+:
      canon (.elected i (s.nodes i).currentTerm (s.nodes i).log :: s.history) T :=
    leaderLog_prefix_elected hnil
  refine hm.after (matching_survive hgrow ?_) ⟨?_, by simp, by simp, ?_⟩
  · intro j T log hj hled
    have hne : (s.nodes i).currentTerm ≠ T := by
      rintro rfl
      exact hnone j log hled
    exact (hcanon T).trans (if_neg hne)
  · refine ⟨hn.conforms.mono hgrow, hn.numbered, fun _ => ?_⟩
    exact ⟨((hcanon _).trans (if_pos rfl)).symm, (s.nodes i).log, List.mem_cons_self⟩
  · intro ev hev j entry heq
    rw [List.mem_singleton.mp hev] at heq
    simp at heq

/-- It grows by what its leader appends. -/
theorem matching_after_propose {entry : LogEntry} {acknowledged : Bool}
    (hb : (ballots cfg).Hold s) (hm : matching.Hold s)
    (hunique : LeadersUnique (Cluster.proposeEvents i acknowledged ((s.nodes i).log.length + 1)
      entry ++ s.history))
    (hrole : (s.nodes i).role = .leader) (hterm : entry.term = (s.nodes i).currentTerm)
    (hindex : entry.index = (s.nodes i).getLastLogIndex + 1) :
    matching.Hold (s.after i
      { node := { s.nodes i with log := (s.nodes i).log ++ [entry] }
        activity := .idle
        events :=
          Cluster.proposeEvents i acknowledged ((s.nodes i).log.length + 1) entry }) := by
  have hn : Matching s.history i (s.nodes i) := hm.node i
  obtain ⟨hlog, log, hled⟩ := hn.leader hrole
  have hcanon : ∀ T, canon (Cluster.proposeEvents i acknowledged ((s.nodes i).log.length + 1)
      entry ++ s.history) T =
        if entry.term = T then canon s.history T ++ [entry] else canon s.history T := by
    intro T
    cases acknowledged <;> exact leaderLog_proposed
  have hgrow : ∀ T, canon s.history T <+: canon (Cluster.proposeEvents i acknowledged
      ((s.nodes i).log.length + 1) entry ++ s.history) T := by
    intro T
    cases acknowledged <;> exact leaderLog_prefix_proposed T
  refine hm.after (matching_survive hgrow ?_) ⟨?_, by simp, by simp, ?_⟩
  · -- another leader leads another term
    intro j T log' hj hled'
    have hne : entry.term ≠ T := by
      rintro rfl
      rw [hterm] at hled'
      exact hj (hunique.of_append j i _ log' log hled' hled)
    exact (hcanon T).trans (if_neg hne)
  · have hnew : (s.nodes i).log ++ [entry] = canon (Cluster.proposeEvents i acknowledged
        ((s.nodes i).log.length + 1) entry ++ s.history) (s.nodes i).currentTerm := by
      rw [hcanon, if_pos hterm, ← hlog]
    refine ⟨?_, ?_, fun _ => ⟨hnew, log, List.mem_append_right _ hled⟩⟩
    · refine Conforms.concat (hn.conforms.mono hgrow) ?_
      rw [hterm]
      exact hnew ▸ List.prefix_refl _
    · refine hn.numbered.concat hindex ?_
      rw [hterm]
      exact ((hb.node i).1.elected_bounds _ log hled).1
  · intro ev hev j e heq
    rcases Cluster.mem_proposeEvents hev with ⟨-, rfl⟩ | rfl
    · simp at heq
    · obtain ⟨rfl, rfl⟩ := Event.proposed.inj heq
      rw [hterm]
      exact ⟨log, List.mem_append_right _ hled⟩

/-- **The invariant holds after every step**, as long as terms have one leader. -/
theorem matching_after {a : Cluster.Action} {e : Cluster.Effect} (hb : (ballots cfg).Hold s)
    (hm : matching.Hold s) (hunique : LeadersUnique (e.events ++ s.history))
    (hstep : Cluster.Step cfg s a i e) : matching.Hold (s.after i e) := by
  have hn : Matching s.history i (s.nodes i) := hm.node i
  cases hstep with
  | electionTimeout i hmem hidle hrole =>
    refine matching_after_of_silent hm ?_ (hn.congr rfl fun hlead => ?_) (by simp)
    · intro ev hev
      rw [List.mem_singleton.mp hev]
      rfl
    · simp [RaftNode.startElection, RaftNode.becomeCandidate] at hlead
  | winElection i request votes hact hwin =>
    exact matching_after_win hb hm hact hunique
  | propose i operation entry acknowledged hmem hidle hrole hterm hindex =>
    exact matching_after_propose hb hm hunique hrole hterm hindex
  | deliverAppend call src i request n response hrequest hidle hhandle =>
    -- the node has what the request carries, a log of the cluster, or keeps its own
    obtain ⟨log, hsnap, hconf, hnum⟩ := hm.request _ (List.mem_of_getElem? hrequest) request rfl
    refine matching_after_of_silent hm ?_ (hn.handleAppendEntries hsnap hconf hnum hhandle)
      (by simp)
    intro ev hev
    rw [(Cluster.mem_appendEvents hev).2]
    rfl
  | sendAppendEntries i next peer request hact hpeer hrequest =>
    refine matching_after_of_silent hm (by simp) hn ?_
    intro env henv request' hbody
    rw [List.mem_singleton.mp henv] at hbody
    obtain rfl := Request.appendEntries.inj hbody
    -- the request carries the node's own log, in office or not
    exact ⟨(s.nodes i).log, (RaftNode.appendEntriesRequest_snapshot hrequest).1, hn.conforms,
      hn.numbered⟩
  | sendRequestVote i request peer remaining votes hact =>
    refine matching_after_of_silent hm (by simp) hn ?_
    intro env henv request' hbody
    rw [List.mem_singleton.mp henv] at hbody
    simp at hbody
  | receiveVote i reply request remaining votes call response hact hreply =>
    refine matching_after_of_silent hm (by simp) ?_ (by simp)
    rcases (s.nodes i).handleVoteReply_cases response with ⟨-, heq⟩ | heq
    · simp only [heq]
      exact hn.becomeFollower response.term []
    · simp only [heq]
      exact hn
  | failElection i request votes hact =>
    exact matching_after_of_silent hm (by simp) (hn.becomeFollower _ []) (by simp)
  | receiveAppend i reply next call peer response hact hreply hpeer =>
    exact matching_after_of_silent hm (by simp) (hn.handleAppendReply peer response) (by simp)
  | deliverVote call src i request n response hrequest hidle hhandle =>
    refine matching_after_of_silent hm ?_ (hn.handleRequestVote hhandle) (by simp)
    intro ev hev
    rw [(Cluster.mem_voteEvents hev).2]
    rfl
  | applyCommitted i hact =>
    obtain ⟨applied, hnode⟩ := (s.nodes i).applyCommittedEntries_node
    refine matching_after_of_silent hm ?_ ?_ (by simp)
    · intro ev hev
      obtain ⟨p, -, rfl⟩ := List.mem_map.mp hev
      rfl
    · simp only [hnode]
      exact hn.congr rfl fun hlead => ⟨hlead, rfl⟩
  | loseVote | startHeartbeat | loseAppend | finishHeartbeat | refuse =>
    exact matching_after_of_silent hm (by simp) hn (by simp)

theorem matching_start (cfg : ClusterConfig) : matching.Hold (Cluster.start cfg) where
  node i := by
    refine ⟨conforms_nil, numbered_nil, fun hlead => ?_⟩
    simp [Cluster.start, RaftNode.new] at hlead
  request _ henv := absurd henv List.not_mem_nil
  reply _ _ := trivial
  event _ hev := absurd hev List.not_mem_nil

/-- **The invariant holds along every run** in which terms have one leader and do not wrap
around. -/
theorem matching_exec {guard : Cluster → Cluster.Action → Prop} [∀ s a, Decidable (guard s a)]
    (hguard : ∀ s a, guard s a → s.TermFits a) {as : List Cluster.Action} {t : Cluster}
    (h : ((cluster cfg).restrict guard).exec (Cluster.start cfg) as = some t)
    (hunique : LeadersUnique t.history) : matching.Hold t := by
  have hboth : (ballots cfg).Hold t ∧ (LeadersUnique t.history → matching.Hold t) := by
    refine System.exec_invariant
      (I := fun s => (ballots cfg).Hold s ∧ (LeadersUnique s.history → matching.Hold s))
      ?_ ⟨ballots_start cfg, fun _ => matching_start cfg⟩ h
    rintro s a t ⟨hb, hm⟩ hst
    obtain ⟨hg, hnext⟩ := System.step_restrict.mp hst
    obtain ⟨i, e, hstep, rfl⟩ := Cluster.step_cases hnext
    refine ⟨ballots_after hb (hguard s a hg) hstep, fun hu => ?_⟩
    exact matching_after hb (hm hu.of_append) hu hstep
  exact hboth.2 hunique

end Steps

/-! ### Runs with one leader in each term -/

section Runs

variable {cfg : ClusterConfig} {as : List Cluster.Action} {s t : Cluster}

/-- At most one node is ever leader in each term of the run. -/
def OneLeader (S : System Cluster Cluster.Action) (as : List Cluster.Action) : Prop :=
  ∀ s ∈ S.visited S.init as, ∀ t ∈ S.visited S.init as, ∀ i j,
    (s.nodes i).role = .leader → (t.nodes j).role = .leader →
      (s.nodes i).currentTerm = (t.nodes j).currentTerm → i = j

/-- A leader that was written down was leader in some state of the run. -/
theorem exists_leader_of_elected {i : Bytes} {T : ℤ} {log : List LogEntry}
    (h : (cluster cfg).exec s as = some t) (hmem : .elected i T log ∈ t.history) :
    .elected i T log ∈ s.history ∨
      ∃ u ∈ (cluster cfg).visited s as, (u.nodes i).role = .leader ∧
        (u.nodes i).currentTerm = T := by
  induction as generalizing s with
  | nil =>
    obtain rfl := Option.some.inj h
    exact Or.inl hmem
  | cons a as ih =>
    obtain ⟨u, hu, hrest⟩ := (cluster cfg).exec_cons_eq_some h
    have hvisited : ∀ v ∈ (cluster cfg).visited u as, v ∈ (cluster cfg).visited s (a :: as) := by
      intro v hv
      rw [System.visited, hu]
      exact List.mem_cons_of_mem s hv
    rcases ih hrest with hmem' | ⟨v, hv, hlead⟩
    · obtain ⟨j, e, hstep, rfl⟩ := Cluster.step_cases hu
      rcases List.mem_append.mp hmem' with hnew | hold
      · refine Or.inr ⟨_, hvisited _ (System.mem_visited_self _ as), ?_⟩
        -- the node has just won
        cases hstep with
        | winElection j request votes hact hwin =>
          obtain ⟨rfl, rfl, rfl⟩ := Event.elected.inj (List.mem_singleton.mp hnew)
          rw [Cluster.nodes_after_self]
          exact ⟨rfl, rfl⟩
        | electionTimeout => exact absurd (List.mem_singleton.mp hnew) (by simp)
        | deliverVote => exact absurd (Cluster.mem_voteEvents hnew).2 (by simp)
        | deliverAppend => exact absurd (Cluster.mem_appendEvents hnew).2 (by simp)
        | propose => rcases Cluster.mem_proposeEvents hnew with ⟨-, h⟩ | h <;> simp at h
        | applyCommitted =>
          obtain ⟨p, -, hp⟩ := List.mem_map.mp hnew
          simp at hp
        | _ => exact absurd hnew List.not_mem_nil
      · exact Or.inl hold
    · exact Or.inr ⟨v, hvisited v hv, hlead⟩

theorem OneLeader.leadersUnique (hone : OneLeader (cluster cfg) as)
    (h : (cluster cfg).exec (Cluster.start cfg) as = some t) : LeadersUnique t.history := by
  intro c c' T log log' hc hc'
  rcases exists_leader_of_elected h hc with hinit | ⟨u, hu, hlead, hterm⟩
  · exact absurd hinit List.not_mem_nil
  · rcases exists_leader_of_elected h hc' with hinit | ⟨u', hu', hlead', hterm'⟩
    · exact absurd hinit List.not_mem_nil
    · exact hone u hu u' hu' c c' hlead hlead' (hterm.trans hterm'.symm)

/-- Where votes are cast once, a run has one leader in each term. -/
theorem oneLeader_of_votesOnce
    (h : ((cluster cfg).restrict Cluster.VotesOnce).exec (Cluster.start cfg) as = some t) :
    OneLeader (cluster cfg) as := by
  obtain ⟨-, het⟩ := elections_exec (fun _ _ h => h) h
  have hled : ∀ u ∈ (cluster cfg).visited (cluster cfg).init as, ∀ i,
      (u.nodes i).role = .leader → ∃ log, .elected i (u.nodes i).currentTerm log ∈ t.history := by
    intro u hu i hlead
    have hu' : u ∈ ((cluster cfg).restrict Cluster.VotesOnce).visited (Cluster.start cfg) as := by
      rw [System.visited_restrict h]
      exact hu
    obtain ⟨bs, cs, rfl, hbs, hcs⟩ := System.exists_of_mem_visited h hu'
    obtain ⟨log, hlog⟩ := ((ballots_exec (fun _ _ hg => hg.1) hbs).node i).1.leader hlead
    exact ⟨log, (Cluster.history_exec (System.exec_restrict hcs)).subset hlog⟩
  intro u hu u' hu' i j hlead hlead' hterm
  obtain ⟨log, hlog⟩ := hled u hu i hlead
  obtain ⟨log', hlog'⟩ := hled u' hu' j hlead'
  rw [← hterm] at hlog'
  exact het.leader_unique hlog hlog'

/-- Entries of the same term at the same position have the same entries before them. -/
def LogsMatch (s : Cluster) : Prop :=
  ∀ i j (p : ℕ) (e e' : LogEntry), (s.nodes i).log[p]? = some e →
    (s.nodes j).log[p]? = some e' → e.term = e'.term →
      ∀ q ≤ p, (s.nodes i).log[q]? = (s.nodes j).log[q]?

/-- The entry at position `p`, counted from one, has index `p`. -/
def IndicesMatch (s : Cluster) : Prop :=
  ∀ i (p : ℕ) (e : LogEntry), (s.nodes i).log[p]? = some e → e.index = p + 1

/-- **Log matching**, in every run in which terms do not overflow and have one leader. -/
theorem cluster_logMatching (cfg : ClusterConfig) (as : List Cluster.Action) (t : Cluster)
    (hrun : ((cluster cfg).restrict Cluster.TermFits).exec (Cluster.start cfg) as = some t)
    (hone : OneLeader (cluster cfg) as) : LogsMatch t ∧ IndicesMatch t := by
  have hunique := hone.leadersUnique (System.exec_restrict hrun)
  have hm := matching_exec (fun _ _ h => h) hrun hunique
  constructor
  · intro i j p e e' he he' hterm q hq
    have htake := (hm.node i).conforms.take_eq (hm.node j).conforms he he' hterm
    have hget := congrArg (fun l => l[q]?) htake
    simpa only [List.getElem?_take_of_lt (Nat.lt_succ_of_le hq)] using hget
  · intro i p e he
    exact ((hm.node i).numbered p e he).1

/-- `A` is elected, appends an entry and sends it to `B`. -/
def sampleReplication : List Cluster.Action :=
  sampleElection ++
    [.operate (utf8 "A") (.propose (utf8 "set") (utf8 "x")), .startHeartbeat (utf8 "A"),
      .sendAppendEntries (utf8 "A"), .deliver 2, .receiveAppend (utf8 "A") 1]

theorem sampleReplication_logMatching :
    ∃ t, (cluster sampleCluster).exec (Cluster.start sampleCluster) sampleReplication = some t ∧
      ((t.nodes (utf8 "A")).log.length = 1 ∧ (t.nodes (utf8 "B")).log.length = 1) ∧
      LogsMatch t ∧ IndicesMatch t := by
  obtain ⟨t, ht, hlogs⟩ := ((cluster sampleCluster).restrict
    Cluster.VotesOnce).exists_exec_of_any
    (Cluster.start sampleCluster) sampleReplication
    (fun t => (t.nodes (utf8 "A")).log.length = 1 ∧ (t.nodes (utf8 "B")).log.length = 1)
    (by decide +kernel)
  exact ⟨t, System.exec_restrict ht, of_decide_eq_true hlogs,
    cluster_logMatching sampleCluster sampleReplication t
      (System.exec_restrict_mono (fun _ _ hg => hg.1) ht) (oneLeader_of_votesOnce ht)⟩

end Runs
