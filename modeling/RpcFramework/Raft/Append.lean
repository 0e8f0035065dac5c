import RpcFramework.Raft.LogMatching

/-!
# What an append request does to its receiver

One request of `heartbeatLoop` and one follower, in whatever states: what a success reply
says about the two logs, how far a request moves `commit_index_`, and what a request that
comes late does to the log.  The follower may have anything behind the point where the
request attaches, and the request may carry nothing.

## Main definitions

* `RaftNode.CertifiesMatch` — a success reply names entries that the two logs share.
* `RaftNode.CommitsVerified` — what is newly committed, the request has verified.
* `RaftNode.KeepsLog`, `RaftNode.KeepsEntriesOf` — a request takes nothing away.

## Main results

* `RaftNode.certifiesMatch_iff`, `RaftNode.commitsVerified_iff`, `RaftNode.keepsLog_iff` —
  **when they hold.**
-/

open Rpc

namespace RaftNode

/-- Log matching: where two logs have entries of one term, they are the same up to there. -/
def LogMatching (l l' : List LogEntry) : Prop :=
  ∀ p e e', l[p]? = some e → l'[p]? = some e' → e.term = e'.term →
    l.take (p + 1) = l'.take (p + 1)

/-- The handler neither refuses the request as outdated nor as one that does not attach. -/
def Admits (n : RaftNode) (request : AppendEntriesRequest) : Prop :=
  n.currentTerm ≤ request.term ∧ logConsistent n.log request

section Admits

variable {n n' : RaftNode} {request : AppendEntriesRequest} {response : AppendEntriesResponse}

/-- The position where an accepted request attaches is in the log. -/
theorem Admits.le_length (h : n.Admits request) : request.prevLogIndex ≤ n.log.length := by
  by_cases hpos : 0 < request.prevLogIndex
  · exact (h.2 hpos).1
  · omega

/-- A request without entries leaves the log as it is. -/
theorem replaceEntries_of_nil {log : List LogEntry} (h : request.entries = []) :
    replaceEntries log request = some log := by
  rw [replaceEntries, if_pos h]

/-- A request with entries puts them behind what it attaches to, and nothing after them. -/
theorem replaceEntries_of_ne_nil {log : List LogEntry} (h : request.entries ≠ [])
    (hnonneg : 0 ≤ request.prevLogIndex) : replaceEntries log request =
      some (log.take request.prevLogIndex.toNat ++ request.entries) := by
  rw [replaceEntries, if_neg h, if_neg (not_lt.mpr hnonneg)]

/-- The node after a request that it accepts. -/
def accepted (n : RaftNode) (request : AppendEntriesRequest) (log : List LogEntry) : RaftNode :=
  { n.becomeFollower request.term request.leaderId with
    log := log
    commitIndex :=
      if n.commitIndex < request.leaderCommit then min request.leaderCommit log.length
      else n.commitIndex }

/-- **What an accepted request comes to.** -/
theorem Admits.handleAppendEntries_eq (h : n.Admits request) : n.handleAppendEntries request =
    (replaceEntries n.log request).map fun log =>
      (n.accepted request log,
        { term := n.currentTerm, success := true, matchIndex := log.length }) := by
  have hlog : logConsistent (n.becomeFollower request.term request.leaderId).log request := h.2
  rw [handleAppendEntries, if_neg (not_lt.mpr h.1), if_neg (not_not.mpr hlog)]
  rfl

/-- Only an accepted request is answered with success, and only such a one changes the log or
the commit index. -/
theorem handleAppendEntries_refused (h : ¬ n.Admits request)
    (hstep : n.handleAppendEntries request = some (n', response)) :
    response.success = false ∧ n'.log = n.log ∧ n'.commitIndex = n.commitIndex := by
  rcases handleAppendEntries_cases hstep with
    ⟨-, rfl, rfl⟩ | ⟨-, -, rfl, rfl⟩ | ⟨hterm, hcons, -⟩
  · exact ⟨rfl, rfl, rfl⟩
  · exact ⟨rfl, rfl, rfl⟩
  · exact absurd ⟨hterm, hcons⟩ h

theorem admits_of_success (hstep : n.handleAppendEntries request = some (n', response))
    (hsuccess : response.success = true) : n.Admits request := by
  by_contra hrefused
  have hfailed := (handleAppendEntries_refused hrefused hstep).1
  rw [hsuccess] at hfailed
  cases hfailed

/-- A request carries nothing if it attaches behind the last entry of the sender's log. -/
theorem entries_eq_nil_iff {log : List LogEntry} (hs : Snapshot log request) :
    request.entries = [] ↔ log.length ≤ request.prevLogIndex.toNat := by
  rw [hs.entries, List.drop_eq_nil_iff]

end Admits

/-! ### A success reply -/

/-- If the follower answers the request with success, the index it reports is within the
leader's log, and up to there its own log is the same. -/
def CertifiesMatch (leader follower : RaftNode) (request : AppendEntriesRequest) : Prop :=
  ∀ follower' response, follower.handleAppendEntries request = some (follower', response) →
    response.success = true →
      response.matchIndex ≤ leader.log.length ∧
        follower'.log.take response.matchIndex.toNat = leader.log.take response.matchIndex.toNat

section CertifiesMatch

variable {leader follower : RaftNode} {i : ℕ} {request : AppendEntriesRequest}

/-- Where the leader's request attaches within its log, the follower's is the same up to
there. -/
theorem take_eq_of_logMatching (hs : Snapshot leader.log request)
    (hmatch : LogMatching leader.log follower.log) (hcons : logConsistent follower.log request)
    (hle : request.prevLogIndex.toNat ≤ leader.log.length) :
    follower.log.take request.prevLogIndex.toNat =
      leader.log.take request.prevLogIndex.toNat := by
  cases hk : request.prevLogIndex.toNat with
  | zero => rfl
  | succ p =>
    obtain ⟨-, hterm⟩ := hcons (by omega)
    have hindex : (request.prevLogIndex - 1).toNat = p := by omega
    rw [hindex, Option.map_eq_some_iff] at hterm
    obtain ⟨e, he, hterm⟩ := hterm
    have hlt : p < leader.log.length := by omega
    have he' : leader.log[p]? = some leader.log[p] := List.getElem?_eq_getElem hlt
    exact (hmatch p _ e he' he ((hs.attach p _ hk he').symm.trans hterm.symm)).symm

/-- Without entries the whole log is reported; if it is no longer than the leader's, the request
has checked all of it. -/
theorem certifiesMatch_iff_of_nil (hs : Snapshot leader.log request)
    (hmatch : LogMatching leader.log follower.log) (hadmits : follower.Admits request)
    (hentries : request.entries = []) :
    CertifiesMatch leader follower request ↔ follower.log.length ≤ leader.log.length := by
  have hbehind := (entries_eq_nil_iff hs).mp hentries
  have hprev := hadmits.le_length
  rw [CertifiesMatch, hadmits.handleAppendEntries_eq, replaceEntries_of_nil hentries,
    Option.map_some]
  constructor
  · intro h
    have hle := (h _ _ rfl rfl).1
    simp only [Nat.cast_le] at hle
    exact hle
  · rintro hle follower' response heq -
    obtain ⟨rfl, rfl⟩ := Prod.mk.inj (Option.some.inj heq)
    have hlength : request.prevLogIndex.toNat = follower.log.length := by omega
    have htake := take_eq_of_logMatching hs hmatch hadmits.2 (by omega)
    rw [hlength] at htake
    exact ⟨Nat.cast_le.mpr hle, htake⟩

/-- With entries the log becomes the leader's. -/
theorem certifiesMatch_of_carried (hs : Snapshot leader.log request)
    (hmatch : LogMatching leader.log follower.log) (hadmits : follower.Admits request)
    (hentries : request.entries ≠ []) : CertifiesMatch leader follower request := by
  have hwithin : ¬ leader.log.length ≤ request.prevLogIndex.toNat :=
    fun hbehind => hentries ((entries_eq_nil_iff hs).mpr hbehind)
  have htake := take_eq_of_logMatching hs hmatch hadmits.2 (not_le.mp hwithin).le
  have hlog : follower.log.take request.prevLogIndex.toNat ++ request.entries = leader.log := by
    rw [htake, hs.entries, List.take_append_drop]
  rw [CertifiesMatch, hadmits.handleAppendEntries_eq,
    replaceEntries_of_ne_nil hentries hs.nonneg, Option.map_some, hlog]
  rintro follower' response heq -
  obtain ⟨rfl, rfl⟩ := Prod.mk.inj (Option.some.inj heq)
  exact ⟨le_refl _, rfl⟩

/-- **A success reply certifies a match** exactly if the request is refused, carries entries,
or finds a log that is no longer than the leader's. -/
theorem certifiesMatch_iff (hrequest : leader.appendEntriesRequest i = some request)
    (hmatch : LogMatching leader.log follower.log) :
    CertifiesMatch leader follower request ↔
      ¬ follower.Admits request ∨ request.entries ≠ [] ∨
        follower.log.length ≤ leader.log.length := by
  obtain ⟨hs, -, -⟩ := appendEntriesRequest_snapshot hrequest
  by_cases hadmits : follower.Admits request
  · rw [or_iff_right (not_not.mpr hadmits)]
    by_cases hentries : request.entries = []
    · rw [or_iff_right (not_not.mpr hentries)]
      exact certifiesMatch_iff_of_nil hs hmatch hadmits hentries
    · exact iff_of_true (certifiesMatch_of_carried hs hmatch hadmits hentries) (.inl hentries)
  · refine iff_of_true ?_ (.inl hadmits)
    intro follower' response hstep hsuccess
    exact absurd (admits_of_success hstep hsuccess) hadmits

end CertifiesMatch

/-- An entry of this term at this index. -/
def sampleEntry (term index : ℤ) : LogEntry where
  term := term
  index := index
  operation := utf8 "register"
  data := utf8 "s"

/-- A leader of the third term with one peer, to which it sends what it has from `next` on. -/
def sampleLeader (log : List LogEntry) (commitIndex next : ℤ) : RaftNode :=
  { new (utf8 "A") (utf8 "localhost") 9001 [⟨utf8 "B", utf8 "localhost", 9002⟩] with
    role := .leader
    currentTerm := 3
    log := log
    commitIndex := commitIndex
    nextIndex := [next] }

/-- Its peer, still in the second term. -/
def sampleFollower (log : List LogEntry) : RaftNode :=
  { new (utf8 "B") (utf8 "localhost") 9002 [⟨utf8 "A", utf8 "localhost", 9001⟩] with
    currentTerm := 2
    log := log }

/-- The request to the peer, with everything from the first entry on if `next` is one. -/
def sampleRequest (log : List LogEntry) (commitIndex next : ℤ) : AppendEntriesRequest where
  term := 3
  leaderId := utf8 "A"
  prevLogIndex := next - 1
  prevLogTerm := if next = 1 then 0 else 1
  entries := log.drop (next - 1).toNat
  leaderCommit := commitIndex

theorem certifiesMatch_sample :
    CertifiesMatch (sampleLeader [sampleEntry 1 1] 1 1) (sampleFollower [])
      (sampleRequest [sampleEntry 1 1] 1 1) := by
  refine (certifiesMatch_iff (i := 0) (by decide) ?_).mpr (.inr (.inl (by decide)))
  intro p e e' _ he'
  cases he'

/-- A fresh leader's first heartbeat finds an entry of the term before behind the leader's
only one, and the reply counts it. -/
theorem sampleTail_notCertified : ¬ ∀ (leader follower : RaftNode) (i : ℕ)
    (request : AppendEntriesRequest), leader.appendEntriesRequest i = some request →
      LogMatching leader.log follower.log → CertifiesMatch leader follower request := by
  intro h
  have hmatch : LogMatching [sampleEntry 1 1] [sampleEntry 1 1, sampleEntry 2 2] := by
    intro p e e' he _ _
    cases p with
    | zero => rfl
    | succ p => cases he
  have hle := (h (sampleLeader [sampleEntry 1 1] 1 2)
    (sampleFollower [sampleEntry 1 1, sampleEntry 2 2]) 0 (sampleRequest [sampleEntry 1 1] 1 2)
    (by decide) hmatch _ _ rfl rfl).1
  exact absurd hle (by decide)

/-! ### The commit index -/

/-- If the follower accepts the request, its commit index stays, or moves to an entry that
the request carried or checked. -/
def CommitsVerified (follower : RaftNode) (request : AppendEntriesRequest) : Prop :=
  ∀ follower' response, follower.handleAppendEntries request = some (follower', response) →
    response.success = true →
      follower'.commitIndex = follower.commitIndex ∨
        follower'.commitIndex ≤ request.prevLogIndex + request.entries.length

section CommitsVerified

variable {follower : RaftNode} {request : AppendEntriesRequest}

/-- Without entries the log stays, and its end bounds the new commit index. -/
theorem commitsVerified_iff_of_nil (hadmits : follower.Admits request)
    (hentries : request.entries = []) :
    CommitsVerified follower request ↔
      request.leaderCommit ≤ follower.commitIndex ∨
        follower.commitIndex = follower.log.length ∨
        min request.leaderCommit follower.log.length ≤ request.prevLogIndex := by
  rw [CommitsVerified, hadmits.handleAppendEntries_eq, replaceEntries_of_nil hentries,
    Option.map_some, hentries]
  constructor
  · intro h
    have hcommit := h _ _ rfl rfl
    simp only [accepted, List.length_nil] at hcommit
    split at hcommit <;> omega
  · rintro hcond follower' response heq -
    obtain ⟨rfl, rfl⟩ := Prod.mk.inj (Option.some.inj heq)
    simp only [accepted, List.length_nil]
    split <;> omega

/-- With entries the log ends where the request does. -/
theorem commitsVerified_of_carried (hadmits : follower.Admits request)
    (hentries : request.entries ≠ []) : CommitsVerified follower request := by
  intro follower' response hstep _
  have hprev := hadmits.le_length
  rw [hadmits.handleAppendEntries_eq] at hstep
  by_cases hnonneg : 0 ≤ request.prevLogIndex
  · rw [replaceEntries_of_ne_nil hentries hnonneg, Option.map_some] at hstep
    obtain ⟨rfl, rfl⟩ := Prod.mk.inj (Option.some.inj hstep)
    simp only [accepted, List.length_append, List.length_take]
    split <;> omega
  · rw [replaceEntries, if_neg hentries, if_pos (not_le.mp hnonneg)] at hstep
    cases hstep

end CommitsVerified

/-- **What is newly committed has been verified** exactly if the request is refused, carries
entries, or leaves `commit_index_` where it was, or if its commit index or the end of the log
is within what it checks. -/
theorem commitsVerified_iff (follower : RaftNode) (request : AppendEntriesRequest) :
    CommitsVerified follower request ↔
      ¬ follower.Admits request ∨ request.entries ≠ [] ∨
        request.leaderCommit ≤ follower.commitIndex ∨
        follower.commitIndex = follower.log.length ∨
        min request.leaderCommit follower.log.length ≤ request.prevLogIndex := by
  by_cases hadmits : follower.Admits request
  · rw [or_iff_right (not_not.mpr hadmits)]
    by_cases hentries : request.entries = []
    · rw [or_iff_right (not_not.mpr hentries)]
      exact commitsVerified_iff_of_nil hadmits hentries
    · exact iff_of_true (commitsVerified_of_carried hadmits hentries) (.inl hentries)
  · refine iff_of_true ?_ (.inl hadmits)
    intro follower' response hstep hsuccess
    exact absurd (admits_of_success hstep hsuccess) hadmits

/-- A cluster of five. -/
def sampleFive : ClusterConfig where
  members := [utf8 "A", utf8 "B", utf8 "C", utf8 "D", utf8 "E"]
  nodup := by decide +kernel
  host _ := utf8 "127.0.0.1"
  port _ := 9000
  peers i := [utf8 "A", utf8 "B", utf8 "C", utf8 "D", utf8 "E"].erase i
  peers_perm _ _ := List.Perm.refl _

/-- `A` leads the first term with the votes of `B` and `C`, which both get its two entries; it
tells `B` that they are committed.  Then its very first request reaches `B`, which erases the
second entry, and `B` wins the second term with the votes of `D` and `E`. -/
def sampleErased : List Cluster.Action :=
  [.electionTimeout (utf8 "A"), .sendRequestVote (utf8 "A"), .deliver 0,
    .receiveVote (utf8 "A") 0, .sendRequestVote (utf8 "A"), .deliver 1,
    .receiveVote (utf8 "A") 1, .sendRequestVote (utf8 "A"), .loseVote (utf8 "A"),
    .sendRequestVote (utf8 "A"), .loseVote (utf8 "A"), .finishElection (utf8 "A"),
    .operate (utf8 "A") (.propose (utf8 "set") (utf8 "x")), .startHeartbeat (utf8 "A"),
    .sendAppendEntries (utf8 "A"), .loseAppend (utf8 "A"), .sendAppendEntries (utf8 "A"),
    .loseAppend (utf8 "A"), .sendAppendEntries (utf8 "A"), .loseAppend (utf8 "A"),
    .sendAppendEntries (utf8 "A"), .loseAppend (utf8 "A"), .finishHeartbeat (utf8 "A"),
    .operate (utf8 "A") (.propose (utf8 "set") (utf8 "y")), .startHeartbeat (utf8 "A"),
    .sendAppendEntries (utf8 "A"), .deliver 8, .receiveAppend (utf8 "A") 2,
    .sendAppendEntries (utf8 "A"), .deliver 9, .receiveAppend (utf8 "A") 3,
    .sendAppendEntries (utf8 "A"), .loseAppend (utf8 "A"), .sendAppendEntries (utf8 "A"),
    .loseAppend (utf8 "A"), .finishHeartbeat (utf8 "A"), .startHeartbeat (utf8 "A"),
    .sendAppendEntries (utf8 "A"), .deliver 12, .deliver 4, .electionTimeout (utf8 "B"),
    .sendRequestVote (utf8 "B"), .loseVote (utf8 "B"), .sendRequestVote (utf8 "B"),
    .loseVote (utf8 "B"), .sendRequestVote (utf8 "B"), .deliver 15, .receiveVote (utf8 "B") 6,
    .sendRequestVote (utf8 "B"), .deliver 16, .receiveVote (utf8 "B") 7,
    .finishElection (utf8 "B")]

/-- What the leader sends its `k`-th peer makes that peer commit more than it has verified. -/
def overcommits (s : Cluster) (i : Bytes) (k : ℕ) : Bool :=
  (s.nodes i).role = .leader &&
    ((s.nodes i).peers[k]?).any fun peer =>
      ((s.nodes i).appendEntriesRequest k).any fun request =>
        ((s.nodes peer.nodeId).handleAppendEntries request).any fun outcome =>
          outcome.2.success &&
            decide ((s.nodes peer.nodeId).commitIndex < outcome.1.commitIndex ∧
              request.prevLogIndex + request.entries.length < outcome.1.commitIndex)

/-- The new leader's heartbeat makes `C` commit the entry that the leader has lost. -/
theorem sampleErased_commitsUnverified : ¬ ∀ (cfg : ClusterConfig) (as : List Cluster.Action)
    (s : Cluster), (cluster cfg).exec (Cluster.start cfg) as = some s →
      ∀ (i : Bytes) (k : ℕ) (peer : RaftPeer) (request : AppendEntriesRequest),
        (s.nodes i).role = .leader → (s.nodes i).peers[k]? = some peer →
          (s.nodes i).appendEntriesRequest k = some request →
            CommitsVerified (s.nodes peer.nodeId) request := by
  intro h
  obtain ⟨s, hrun, htest⟩ := (cluster sampleFive).exists_exec_of_any (Cluster.start sampleFive)
    sampleErased (fun s => overcommits s (utf8 "B") 1) (by decide +kernel)
  obtain ⟨hrole, htest⟩ := (Bool.and_eq_true _ _).mp htest
  obtain ⟨peer, hpeer, htest⟩ := (Option.any_eq_true _ _).mp htest
  obtain ⟨request, hrequest, htest⟩ := (Option.any_eq_true _ _).mp htest
  obtain ⟨⟨follower', response⟩, hstep, htest⟩ := (Option.any_eq_true _ _).mp htest
  obtain ⟨hsuccess, hcommit⟩ := (Bool.and_eq_true _ _).mp htest
  obtain ⟨hmoved, hbeyond⟩ := of_decide_eq_true hcommit
  have hverified := h sampleFive sampleErased s hrun (utf8 "B") 1 peer request
    (of_decide_eq_true hrole) hpeer hrequest follower' response hstep hsuccess
  rcases hverified with hsame | hle
  · exact hmoved.ne' hsame
  · exact absurd hle (not_le.mpr hbeyond)

/-! ### A request that comes late -/

/-- Handling the request, the node's log is not shortened, and no entry of it changes. -/
def KeepsLog (n : RaftNode) (request : AppendEntriesRequest) : Prop :=
  ∀ n' response, n.handleAppendEntries request = some (n', response) → n.log <+: n'.log

/-- Handling the request, the node loses no entry of this log that it had. -/
def KeepsEntriesOf (log : List LogEntry) (n : RaftNode) (request : AppendEntriesRequest) :
    Prop :=
  ∀ n' response, n.handleAppendEntries request = some (n', response) →
    ∀ (k : ℕ) (entry : LogEntry), log[k]? = some entry → n.log[k]? = some entry →
      n'.log[k]? = some entry

section KeepsLog

variable {n n' : RaftNode} {log : List LogEntry} {request : AppendEntriesRequest}
  {response : AppendEntriesResponse}

/-- A node that accepted a request is in its term. -/
theorem currentTerm_of_success (h : n.handleAppendEntries request = some (n', response))
    (hsuccess : response.success = true) : n'.currentTerm = request.term := by
  rcases handleAppendEntries_cases h with
    ⟨-, rfl, rfl⟩ | ⟨-, -, rfl, rfl⟩ | ⟨-, -, log, -, rfl, -⟩
  · cases hsuccess
  · cases hsuccess
  · rfl

/-- Nothing is taken away by a request that is refused or that carries nothing. -/
theorem log_eq_of_refused (h : ¬ n.Admits request ∨ request.entries = [])
    (hstep : n.handleAppendEntries request = some (n', response)) : n'.log = n.log := by
  by_cases hadmits : n.Admits request
  · rw [hadmits.handleAppendEntries_eq,
      replaceEntries_of_nil (h.resolve_left (not_not.mpr hadmits)), Option.map_some] at hstep
    obtain ⟨rfl, -⟩ := Prod.mk.inj (Option.some.inj hstep)
    rfl
  · exact (handleAppendEntries_refused hadmits hstep).2.1

/-- A request that carries entries leaves nothing but them behind what it attaches to. -/
theorem log_of_carried (hadmits : n.Admits request) (hentries : request.entries ≠ [])
    (hnonneg : 0 ≤ request.prevLogIndex) :
    ∃ n' response, n.handleAppendEntries request = some (n', response) ∧
      n'.log = n.log.take request.prevLogIndex.toNat ++ request.entries :=
  ⟨_, _, by rw [hadmits.handleAppendEntries_eq, replaceEntries_of_ne_nil hentries hnonneg]; rfl,
    rfl⟩

/-- The log is kept if what it has behind the point where the request attaches is the
beginning of what the request carries. -/
theorem keepsLog_iff_of_admits (hadmits : n.Admits request) (hentries : request.entries ≠ [])
    (hnonneg : 0 ≤ request.prevLogIndex) :
    KeepsLog n request ↔ n.log.drop request.prevLogIndex.toNat <+: request.entries := by
  obtain ⟨n', response, hstep, hlog⟩ := log_of_carried hadmits hentries hnonneg
  have hsplit : n.log <+: n'.log ↔ n.log.drop request.prevLogIndex.toNat <+: request.entries :=
    calc n.log <+: n'.log
        ↔ n.log.take request.prevLogIndex.toNat ++ n.log.drop request.prevLogIndex.toNat <+:
            n.log.take request.prevLogIndex.toNat ++ request.entries := by
          rw [List.take_append_drop, hlog]
      _ ↔ n.log.drop request.prevLogIndex.toNat <+: request.entries :=
          List.prefix_append_right_inj _
  rw [← hsplit, KeepsLog, hstep]
  constructor
  · exact fun h => h n' response rfl
  · rintro h n'' response' heq
    obtain ⟨rfl, rfl⟩ := Prod.mk.inj (Option.some.inj heq)
    exact h

/-- The entries of a longer log are kept if the node has none of them behind the end of the
log that the request was built from. -/
theorem keepsEntriesOf_iff_of_admits {longer : List LogEntry} (hs : Snapshot log request)
    (hlonger : log <+: longer) (hadmits : n.Admits request) (hentries : request.entries ≠ []) :
    KeepsEntriesOf longer n request ↔
      ∀ k, log.length ≤ k → ∀ entry, longer[k]? = some entry → n.log[k]? ≠ some entry := by
  have hnonneg := hs.nonneg
  have hprev := hadmits.le_length
  have hwithin : ¬ log.length ≤ request.prevLogIndex.toNat :=
    fun hbehind => hentries ((entries_eq_nil_iff hs).mpr hbehind)
  obtain ⟨n', response, hstep, hlog⟩ := log_of_carried hadmits hentries hnonneg
  have hbefore : ∀ k < request.prevLogIndex.toNat, n'.log[k]? = n.log[k]? := by
    intro k hk
    rw [hlog, List.getElem?_append_left (by rw [List.length_take]; omega),
      List.getElem?_take_of_lt hk]
  have hbehind : ∀ k, request.prevLogIndex.toNat ≤ k → n'.log[k]? = log[k]? := by
    intro k hk
    have hlength : (n.log.take request.prevLogIndex.toNat).length =
        request.prevLogIndex.toNat := by
      rw [List.length_take]
      omega
    rw [hlog, List.getElem?_append_right (by omega), hlength, hs.entries, List.getElem?_drop,
      Nat.add_sub_cancel' hk]
  rw [KeepsEntriesOf, hstep]
  constructor
  · intro h k hk entry hlong hhad
    have hkept := h n' response rfl k entry hlong hhad
    rw [hbehind k (by omega), List.getElem?_eq_none hk] at hkept
    cases hkept
  · rintro h n'' response' heq k entry hlong hhad
    obtain ⟨rfl, rfl⟩ := Prod.mk.inj (Option.some.inj heq)
    rcases Nat.lt_or_ge k request.prevLogIndex.toNat with hk | hk
    · rw [hbefore k hk, hhad]
    · rw [hbehind k hk]
      rcases Nat.lt_or_ge k log.length with hlt | hge
      · have hsame : longer[k]? = some log[k] :=
          getElem?_mono hlonger (List.getElem?_eq_getElem hlt)
        rw [List.getElem?_eq_getElem hlt, ← hsame, hlong]
      · exact absurd hhad (h k hge entry hlong)

end KeepsLog

/-- **A late request is harmless** exactly if it is refused, carries nothing, or begins, behind
the point where it attaches, with everything the follower has there; and the entries of the
leader's present log are safe exactly if, in the last case, the follower has none of them
behind the end of the log the request was built from. -/
theorem keepsLog_iff {leader leader' follower follower' : RaftNode} {i j : ℕ}
    {request request' : AppendEntriesRequest} {response' : AppendEntriesResponse}
    (hterm : leader.currentTerm = leader'.currentTerm) (hlog : leader.log <+: leader'.log)
    (hrequest : leader.appendEntriesRequest i = some request)
    (hrequest' : leader'.appendEntriesRequest j = some request')
    (hstep : follower.handleAppendEntries request' = some (follower', response'))
    (hsuccess : response'.success = true) :
    (KeepsLog follower' request ↔
        ¬ logConsistent follower'.log request ∨ request.entries = [] ∨
          follower'.log.drop request.prevLogIndex.toNat <+: request.entries) ∧
      (KeepsEntriesOf leader'.log follower' request ↔
        ¬ logConsistent follower'.log request ∨ request.entries = [] ∨
          ∀ k, leader.log.length ≤ k → ∀ entry, leader'.log[k]? = some entry →
            follower'.log[k]? ≠ some entry) := by
  obtain ⟨hs, hterm₁, -⟩ := appendEntriesRequest_snapshot hrequest
  obtain ⟨-, hterm₂, -⟩ := appendEntriesRequest_snapshot hrequest'
  -- both requests are of one term, and the follower is in it
  have hcurrent : follower'.currentTerm ≤ request.term := by
    rw [currentTerm_of_success hstep hsuccess, hterm₁, hterm₂, hterm]
  by_cases hadmits : follower'.Admits request
  · rw [or_iff_right (not_not.mpr hadmits.2), or_iff_right (not_not.mpr hadmits.2)]
    by_cases hentries : request.entries = []
    · refine ⟨iff_of_true ?_ (.inl hentries), iff_of_true ?_ (.inl hentries)⟩
      · intro n' response h
        rw [log_eq_of_refused (.inr hentries) h]
      · intro n' response h k entry _ hhad
        rw [log_eq_of_refused (.inr hentries) h, hhad]
    · rw [or_iff_right hentries, or_iff_right hentries]
      exact ⟨keepsLog_iff_of_admits hadmits hentries hs.nonneg,
        keepsEntriesOf_iff_of_admits hs hlog hadmits hentries⟩
  · have hrefused : ¬ logConsistent follower'.log request := fun h => hadmits ⟨hcurrent, h⟩
    refine ⟨iff_of_true ?_ (.inl hrefused), iff_of_true ?_ (.inl hrefused)⟩
    · intro n' response h
      rw [log_eq_of_refused (.inl hadmits) h]
    · intro n' response h k entry _ hhad
      rw [log_eq_of_refused (.inl hadmits) h, hhad]

/-- The later of two requests arrives first. -/
def sampleLate : RaftNode :=
  (sampleFollower []).accepted (sampleRequest [sampleEntry 1 1, sampleEntry 3 2] 0 1)
    [sampleEntry 1 1, sampleEntry 3 2]

/-- A heartbeat built before the second entry was proposed takes nothing away. -/
theorem keepsLog_sample : KeepsLog sampleLate (sampleRequest [sampleEntry 1 1] 0 2) := by
  have hiff := @keepsLog_iff (sampleLeader [sampleEntry 1 1] 0 2)
    (sampleLeader [sampleEntry 1 1, sampleEntry 3 2] 0 1) (sampleFollower []) sampleLate 0 0
    (sampleRequest [sampleEntry 1 1] 0 2) (sampleRequest [sampleEntry 1 1, sampleEntry 3 2] 0 1) _
    rfl (List.prefix_append [sampleEntry 1 1] [sampleEntry 3 2]) (by decide) (by decide) rfl rfl
  exact hiff.1.mpr (.inr (.inl rfl))

/-- The first of two requests arrives last, and takes the second entry away. -/
theorem sampleLate_losesEntry : ¬ ∀ (leader leader' follower follower' : RaftNode) (i j : ℕ)
    (request request' : AppendEntriesRequest) (response' : AppendEntriesResponse),
    leader.currentTerm = leader'.currentTerm → leader.log <+: leader'.log →
      leader.appendEntriesRequest i = some request →
      leader'.appendEntriesRequest j = some request' →
      follower.handleAppendEntries request' = some (follower', response') →
      response'.success = true →
        KeepsLog follower' request ∧ KeepsEntriesOf leader'.log follower' request := by
  intro h
  have hkeeps := (h (sampleLeader [sampleEntry 1 1] 0 1)
    (sampleLeader [sampleEntry 1 1, sampleEntry 3 2] 0 1) (sampleFollower []) sampleLate 0 0
    (sampleRequest [sampleEntry 1 1] 0 1)
    (sampleRequest [sampleEntry 1 1, sampleEntry 3 2] 0 1) _ rfl
    (List.prefix_append [sampleEntry 1 1] [sampleEntry 3 2]) (by decide) (by decide) rfl rfl).2
  have hentry := hkeeps _ _ rfl 1 (sampleEntry 3 2) rfl rfl
  exact absurd hentry (by decide)

end RaftNode
