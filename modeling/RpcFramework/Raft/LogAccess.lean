import RpcFramework.Raft.Round
import RpcFramework.Raft.Terms

/-!
# Positions in the log

The positions of `log_` that handling a message and building the next requests name, and the
numbers they compute on the way.  What comes in from the network is checked against the end
of the log and for some signs: an index below zero passes where only the former is asked.
An append request brings one with its entries; and a reply's `match_index` becomes the
`next_index_` that the next round begins to copy from.

Indices are 64-bit numbers, and a log is as long as a vector can be at most.

## Main definitions

* `Use` — a position named or a number computed; `Use.Valid`.
* `RaftNode.appendEntriesUses`, `RaftNode.requestUses`, `RaftNode.replyUses` — the uses of
  each function; `Solo.uses` — of a step.
* `LogInRange` — all uses of the steps of all runs are valid.
* `Solo.Careful` — no index from the network is below zero, or the largest.
* `IndicesKept` — the invariant.

## Main results

* `RaftNode.appendEntriesUses_valid_iff` — the requests that are safe to handle.
* `solo_logInRange` — **every use is valid in every run whose steps are careful.**
-/

open Rpc Wire

/-- What is done with indices: a position of a log of some size is named, or an index is
computed, whose exact value is given. -/
inductive Use where
  | access (size : ℕ) (position : ℤ)
  | compute (value : ℤ)
  deriving DecidableEq, Repr

/-- The position is one of the log, the value one of an `int64_t`. -/
def Use.Valid : Use → Prop
  | .access size position => 0 ≤ position ∧ position < size
  | .compute value => InRange 64 value

instance Use.decidableValid (u : Use) : Decidable u.Valid := by
  unfold Use.Valid
  split <;> infer_instance

/-- An index that no step takes past the ends of its type is computed right. -/
theorem Use.valid_compute {value : ℤ} (hlo : -2 ^ 63 ≤ value) (hhi : value < 2 ^ 63) :
    Use.Valid (.compute value) := ⟨hlo, hhi⟩

namespace RaftNode

/-- The uses of `handleAppendEntries`: the check where the entries attach, and the place the
log is erased from. -/
def appendEntriesUses (n : RaftNode) (request : AppendEntriesRequest) : List Use :=
  if request.term < n.currentTerm then []
  else
    (if 0 < request.prevLogIndex ∧ request.prevLogIndex ≤ n.log.length then
      [.compute (request.prevLogIndex - 1), .access n.log.length (request.prevLogIndex - 1)]
    else []) ++
      if ¬ logConsistent n.log request ∨ request.entries = [] then []
      else
        .compute (request.prevLogIndex + 1) ::
          if wrap64 (request.prevLogIndex + 1) ≤ n.log.length then
            [.access n.log.length (wrap64 (request.prevLogIndex + 1) - 1)]
          else []

/-- The uses of one round of the loop in `heartbeatLoop` that copies the entries: the entry
is copied, and the index counted up. -/
def copyUses (size : ℕ) (index : ℤ) : List Use :=
  [.compute (index - 1), .access size (index - 1), .compute (index + 1)]

/-- The uses of `heartbeatLoop` where it builds the request for the `i`-th peer. -/
def requestUses (n : RaftNode) (i : ℕ) : List Use :=
  (n.nextIndex[i]?).elim [] fun next =>
    .compute (next - 1) ::
      (if 0 < next - 1 ∧ next - 1 ≤ n.log.length then
        [.compute (next - 1 - 1), .access n.log.length (next - 1 - 1)]
      else []) ++
        (List.range (n.log.length + 1 - next).toNat).flatMap fun k : ℕ =>
          copyUses n.log.length (next + k)

/-- The uses of the loop of `updateCommitIndex` from `index` downwards. -/
def commitUses (n : RaftNode) : ℕ → List Use
  | 0 => if n.commitIndex < 0 then [.access n.log.length (-1)] else []
  | index + 1 =>
      if (index + 1 : ℤ) ≤ n.commitIndex then []
      else
        .access n.log.length index ::
          if (n.log[index]?).map LogEntry.term ≠ some n.currentTerm then n.commitUses index
          else if n.majority ≤ n.replicaCount (index + 1) then []
          else n.commitUses index

/-- The uses of `sendAppendEntries` from the answer on. -/
def replyUses (n : RaftNode) (peer : RaftPeer) (response : AppendEntriesResponse) : List Use :=
  if n.currentTerm < response.term then []
  else
    (n.peers.findIdx? fun p => p.nodeId == peer.nodeId).elim [] fun i =>
      if response.success then
        .compute (response.matchIndex + 1) ::
          if n.role = .leader then
            { n with
              nextIndex := n.nextIndex.set i (response.matchIndex + 1)
              matchIndex := n.matchIndex.set i response.matchIndex }.commitUses n.log.length
          else []
      else if 1 < n.nextIndex.getD i 0 then [.compute (n.nextIndex.getD i 0 - 1)]
      else []

end RaftNode

namespace Solo

variable (s : Solo)

/-- The uses of a step. -/
def uses : Action → List Use
  | .appendEntries request =>
      if s.activity = .idle then s.node.appendEntriesUses request else []
  | .sendAppendEntries _ =>
      match s.activity with
      | .heartbeating next => if next < s.node.peers.length then s.node.requestUses next else []
      | _ => []
  | .receiveAppend response =>
      match s.activity with
      | .awaitingAppend next _ =>
          (s.node.peers[next]?).elim [] fun peer => s.node.replyUses peer response
      | _ => []
  | _ => []

/-- The entries of a request that is looked at attach at an index of the log, if there are
any; and a successful reply that is looked at reports an index of a log. -/
def Careful : Action → Prop
  | .appendEntries request =>
      s.node.currentTerm ≤ request.term → request.entries ≠ [] → 0 ≤ request.prevLogIndex
  | .receiveAppend response =>
      response.term ≤ s.node.currentTerm → response.success = true →
        0 ≤ response.matchIndex ∧ response.matchIndex < 2 ^ 63 - 1
  | _ => True

instance (a : Action) : Decidable (s.Careful a) :=
  match a with
  | .appendEntries _ => inferInstanceAs (Decidable (_ → _ → _))
  | .receiveAppend _ => inferInstanceAs (Decidable (_ → _ → _ ∧ _))
  | .electionTimeout | .sendRequestVote _ | .receiveVote _ | .loseVote | .finishElection
  | .startHeartbeat | .sendAppendEntries _ | .loseAppend | .finishHeartbeat | .requestVote _
  | .operate _ | .applyCommitted => isTrue trivial

/-- After the step the log is one that a vector can hold. -/
def LogFits (a : Action) : Prop := ∀ t ∈ s.step a, t.node.log.length < 2 ^ 63 - 1

instance (a : Action) : Decidable (s.LogFits a) := inferInstanceAs (Decidable (∀ _ ∈ _, _))

end Solo

/-- Every use of every step that may come next is valid, in every run. -/
def LogInRange (S : System Solo Solo.Action) (next : Solo → Solo.Action → Prop) : Prop :=
  ∀ (as : List Solo.Action) (s : Solo), S.exec S.init as = some s →
    ∀ a, next s a → ∀ use ∈ s.uses a, use.Valid

/-- `next_index_` names entries the log may come to have, and `commit_index_` is no less than
zero. -/
structure RaftNode.IndicesKept (n : RaftNode) : Prop where
  next : ∀ next ∈ n.nextIndex, 1 ≤ next ∧ next < 2 ^ 63
  commit : 0 ≤ n.commitIndex

/-! ### Which uses are valid -/

namespace RaftNode

section Uses

variable {n : RaftNode}

theorem IndicesKept.next_getD (hn : IndicesKept n) {i : ℕ} (hone : 1 < n.nextIndex.getD i 0) :
    n.nextIndex.getD i 0 < 2 ^ 63 := by
  rw [List.getD_eq_getElem?_getD] at hone ⊢
  cases hindex : n.nextIndex[i]? with
  | none =>
    rw [hindex, Option.getD_none] at hone
    omega
  | some next => exact (hn.next _ (List.mem_of_getElem? hindex)).2

/-- **A request is safe to handle** unless it is looked at and brings entries that attach below
zero. -/
theorem appendEntriesUses_valid_iff {request : AppendEntriesRequest}
    (hprev : InRange 64 request.prevLogIndex) (hfits : n.log.length < 2 ^ 63 - 1) :
    (∀ use ∈ n.appendEntriesUses request, use.Valid) ↔
      (n.currentTerm ≤ request.term → request.entries ≠ [] → 0 ≤ request.prevLogIndex) := by
  obtain ⟨hlo, hhi⟩ := hprev
  norm_num at hlo hhi
  rw [appendEntriesUses]
  constructor
  · intro hvalid hterm hentries
    by_contra hneg
    have hcons : logConsistent n.log request := fun hpos => absurd hpos (by omega)
    have hwrap : wrap64 (request.prevLogIndex + 1) = request.prevLogIndex + 1 :=
      wrap64_of_lt (by omega) (by omega)
    have hbefore : request.prevLogIndex + 1 ≤ n.log.length := by omega
    have herased : Use.Valid (.access n.log.length (request.prevLogIndex + 1 - 1)) := by
      refine hvalid _ ?_
      rw [if_neg (not_lt.mpr hterm), if_neg (not_or.mpr ⟨not_not.mpr hcons, hentries⟩), hwrap,
        if_pos hbefore]
      exact List.mem_append_right _ (List.mem_cons_of_mem _ List.mem_cons_self)
    have hnonneg := herased.1
    omega
  · intro hcareful
    split
    · exact List.forall_mem_nil _
    · next hterm =>
      rw [List.forall_mem_append]
      constructor
      · split
        · next hwithin =>
          rw [List.forall_mem_cons, List.forall_mem_cons]
          exact ⟨Use.valid_compute (by omega) (by omega), ⟨by omega, by omega⟩,
            List.forall_mem_nil _⟩
        · exact List.forall_mem_nil _
      · split
        · exact List.forall_mem_nil _
        · next hrest =>
          obtain ⟨hcons, hentries⟩ := not_or.mp hrest
          have hnonneg := hcareful (not_lt.mp hterm) hentries
          have hle : request.prevLogIndex ≤ n.log.length := by
            by_cases hpos : 0 < request.prevLogIndex
            · exact (not_not.mp hcons hpos).1
            · omega
          have hwrap : wrap64 (request.prevLogIndex + 1) = request.prevLogIndex + 1 :=
            wrap64_of_lt (by omega) (by omega)
          rw [List.forall_mem_cons, hwrap]
          refine ⟨Use.valid_compute (by omega) (by omega), ?_⟩
          split
          · rw [List.forall_mem_cons]
            exact ⟨⟨by omega, by omega⟩, List.forall_mem_nil _⟩
          · exact List.forall_mem_nil _

theorem copyUses_valid {size : ℕ} {index : ℤ} (hfits : size < 2 ^ 63 - 1) (hpos : 1 ≤ index)
    (hle : index ≤ size) : ∀ use ∈ copyUses size index, use.Valid := by
  rw [copyUses, List.forall_mem_cons, List.forall_mem_cons, List.forall_mem_cons]
  exact ⟨Use.valid_compute (by omega) (by omega), ⟨by omega, by omega⟩,
    Use.valid_compute (by omega) (by omega), List.forall_mem_nil _⟩

/-- A request is built from valid positions if `next_index_` is one the log may come to have. -/
theorem requestUses_valid (hn : n.IndicesKept) (hfits : n.log.length < 2 ^ 63 - 1) (i : ℕ) :
    ∀ use ∈ n.requestUses i, use.Valid := by
  rw [requestUses]
  cases hindex : n.nextIndex[i]? with
  | none => exact List.forall_mem_nil _
  | some next =>
    obtain ⟨hlo, hhi⟩ := hn.next next (List.mem_of_getElem? hindex)
    rw [Option.elim_some, List.cons_append, List.forall_mem_cons, List.forall_mem_append]
    refine ⟨Use.valid_compute (by omega) (by omega), ?_, ?_⟩
    · split
      · rw [List.forall_mem_cons, List.forall_mem_cons]
        exact ⟨Use.valid_compute (by omega) (by omega), ⟨by omega, by omega⟩, List.forall_mem_nil _⟩
      · exact List.forall_mem_nil _
    · intro use huse
      obtain ⟨k, hk, huse⟩ := List.mem_flatMap.mp huse
      have hrange := List.mem_range.mp hk
      exact copyUses_valid hfits (by omega) (by omega) use huse

/-- The loop of `updateCommitIndex` stays within the log if it begins there. -/
theorem commitUses_valid (hcommit : 0 ≤ n.commitIndex) {bound : ℕ} (hle : bound ≤ n.log.length) :
    ∀ use ∈ n.commitUses bound, use.Valid := by
  induction bound with
  | zero =>
    rw [commitUses, if_neg (not_lt.mpr hcommit)]
    exact List.forall_mem_nil _
  | succ index ih =>
    have hbelow := ih (Nat.le_of_succ_le hle)
    rw [commitUses]
    split
    · exact List.forall_mem_nil _
    · rw [List.forall_mem_cons]
      refine ⟨⟨by omega, by omega⟩, ?_⟩
      split
      · exact hbelow
      · split
        · exact List.forall_mem_nil _
        · exact hbelow

/-- A reply is safe to treat if a success reports an index of a log. -/
theorem replyUses_valid {peer : RaftPeer} {response : AppendEntriesResponse}
    (hn : n.IndicesKept)
    (hcareful : response.term ≤ n.currentTerm → response.success = true →
      0 ≤ response.matchIndex ∧ response.matchIndex < 2 ^ 63 - 1) :
    ∀ use ∈ n.replyUses peer response, use.Valid := by
  rw [replyUses]
  split
  · exact List.forall_mem_nil _
  · next hterm =>
    cases n.peers.findIdx? (fun p => p.nodeId == peer.nodeId) with
    | none => exact List.forall_mem_nil _
    | some i =>
      rw [Option.elim_some]
      split
      · next hsuccess =>
        obtain ⟨hlo, hhi⟩ := hcareful (not_lt.mp hterm) hsuccess
        rw [List.forall_mem_cons]
        refine ⟨Use.valid_compute (by omega) (by omega), ?_⟩
        split
        · refine commitUses_valid ?_ ?_
          · exact hn.commit
          · exact le_refl _
        · exact List.forall_mem_nil _
      · split
        · next hone =>
          have hlt := hn.next_getD hone
          rw [List.forall_mem_cons]
          exact ⟨Use.valid_compute (by omega) (by omega), List.forall_mem_nil _⟩
        · exact List.forall_mem_nil _

end Uses

end RaftNode

/-! ### The invariant -/

namespace RaftNode.IndicesKept

variable {n n' : RaftNode}

theorem of_eq (hn : IndicesKept n) (hnext : n'.nextIndex = n.nextIndex)
    (hcommit : n'.commitIndex = n.commitIndex) : IndicesKept n' where
  next := hnext ▸ hn.next
  commit := hcommit ▸ hn.commit

theorem handleVoteReply (hn : IndicesKept n) (response : RequestVoteResponse) :
    IndicesKept (n.handleVoteReply response).1 := by
  rcases n.handleVoteReply_cases response with ⟨-, heq⟩ | heq
  · rw [heq]
    exact hn.of_eq rfl rfl
  · rw [heq]
    exact hn

/-- A new leader begins with what comes after its log. -/
theorem finishElection (hn : IndicesKept n) (hfits : n.log.length < 2 ^ 63 - 1) (votes : ℕ) :
    IndicesKept (n.finishElection votes) := by
  rw [RaftNode.finishElection]
  split
  · refine ⟨fun next hnext => ?_, hn.commit⟩
    obtain ⟨_, -, rfl⟩ := List.mem_map.mp hnext
    rw [getLastLogIndex]
    omega
  · exact hn.of_eq rfl rfl

theorem updateCommitIndex (hn : IndicesKept n) : IndicesKept n.updateCommitIndex := by
  by_cases hrole : n.role = .leader
  · rcases RaftNode.updateCommitIndex_of_leader hrole with ⟨index, -, heq⟩ | ⟨-, heq⟩
    · rw [heq]
      exact ⟨hn.next, Int.natCast_nonneg index⟩
    · rw [heq]
      exact hn
  · rw [RaftNode.updateCommitIndex_of_not_leader hrole]
    exact hn

/-- What a reply sets `next_index_` to is in range if what it reports is. -/
theorem handleAppendReply (hn : IndicesKept n) (peer : RaftPeer)
    {response : AppendEntriesResponse}
    (hcareful : response.term ≤ n.currentTerm → response.success = true →
      0 ≤ response.matchIndex ∧ response.matchIndex < 2 ^ 63 - 1) :
    IndicesKept (n.handleAppendReply peer response) := by
  by_cases hterm : response.term ≤ n.currentTerm
  · cases hfind : n.peers.findIdx? (fun p => p.nodeId == peer.nodeId) with
    | none =>
      rw [RaftNode.handleAppendReply, if_neg (not_lt.mpr hterm)]
      simp only [hfind]
      exact hn
    | some i =>
      cases hsuccess : response.success with
      | true =>
        obtain ⟨hlo, hhi⟩ := hcareful hterm hsuccess
        rw [handleAppendReply_success hterm hsuccess hfind]
        refine updateCommitIndex ⟨fun next hnext => ?_, hn.commit⟩
        rcases List.mem_or_eq_of_mem_set hnext with hold | rfl
        · exact hn.next next hold
        · omega
      | false =>
        rw [handleAppendReply_refused hterm hsuccess hfind]
        split
        · next hone =>
          refine ⟨fun next hnext => ?_, hn.commit⟩
          rcases List.mem_or_eq_of_mem_set hnext with hold | rfl
          · exact hn.next next hold
          · have hback := hn.next_getD hone
            omega
        · exact hn
  · rw [handleAppendReply_later (not_le.mp hterm)]
    exact hn.of_eq rfl rfl

theorem handleRequestVote (hn : IndicesKept n) (request : RequestVoteRequest) :
    IndicesKept (n.handleRequestVote request).1 := by
  have hobserve : IndicesKept (n.observeTerm request.term) := by
    rcases n.observeTerm_eq_or request.term with heq | ⟨-, heq⟩
    · rw [heq]
      exact hn
    · rw [heq]
      exact hn.of_eq rfl rfl
  rcases n.handleRequestVote_cases request with ⟨-, heq⟩ | ⟨-, heq⟩ | ⟨-, -, -, heq⟩
  · rw [heq]
    exact hn
  · rw [heq]
    exact hobserve
  · rw [heq]
    exact hobserve.of_eq rfl rfl

theorem handleAppendEntries (hn : IndicesKept n) {request : AppendEntriesRequest}
    {response : AppendEntriesResponse}
    (h : n.handleAppendEntries request = some (n', response)) : IndicesKept n' := by
  rcases RaftNode.handleAppendEntries_cases h with
    ⟨-, rfl, -⟩ | ⟨-, -, rfl, -⟩ | ⟨-, -, log, -, rfl, -⟩
  · exact hn
  · exact hn.of_eq rfl rfl
  · refine ⟨hn.next, ?_⟩
    have hcommit := hn.commit
    show 0 ≤ if n.commitIndex < request.leaderCommit then min request.leaderCommit log.length
      else n.commitIndex
    split
    · exact le_min (by omega) (Int.natCast_nonneg _)
    · exact hcommit

theorem operate (hn : IndicesKept n) (i : Bytes) (operation : Operation) :
    IndicesKept (Cluster.operate i n operation).1 := by
  rcases Cluster.operate_cases i n operation with heq | ⟨-, entry, acknowledged, -, -, -, heq⟩
  · rw [heq]
    exact hn
  · rw [heq]
    exact hn.of_eq rfl rfl

theorem applyCommittedEntries (hn : IndicesKept n) : IndicesKept n.applyCommittedEntries.1 := by
  obtain ⟨applied, hnode⟩ := n.applyCommittedEntries_node
  rw [hnode]
  exact hn.of_eq rfl rfl

end RaftNode.IndicesKept

section Steps

variable {s t : Solo} {a : Solo.Action}

/-- **A careful step keeps the indices.** -/
theorem Solo.Step.indicesKept (hstep : Solo.Step s a t) (hs : s.node.IndicesKept)
    (hfits : s.node.log.length < 2 ^ 63 - 1) (hcareful : s.Careful a) : t.node.IndicesKept := by
  cases hstep with
  | electionTimeout hidle hrole => exact hs.of_eq rfl rfl
  | receiveVote request remaining votes call response hact hsome =>
    exact hs.handleVoteReply response
  | finishElection request votes hact => exact hs.finishElection hfits votes
  | receiveAppend next call peer response hact hpeer hsome =>
    exact hs.handleAppendReply peer hcareful
  | requestVote request n response hidle hhandle =>
    have hkept := hs.handleRequestVote request
    rw [hhandle] at hkept
    exact hkept
  | appendEntries request n response hidle hhandle => exact hs.handleAppendEntries hhandle
  | operate operation hidle => exact hs.operate _ operation
  | applyCommitted hact => exact hs.applyCommittedEntries
  | sendRequestVote | loseVote | startHeartbeat | sendAppendEntries | loseAppend
  | finishHeartbeat => exact hs

/-- **What a careful step uses is valid.** -/
theorem Solo.uses_valid (hs : s.node.IndicesKept) (hfits : s.node.log.length < 2 ^ 63 - 1)
    (hdecodable : a.Decodable) (hcareful : s.Careful a) : ∀ use ∈ s.uses a, use.Valid := by
  cases a with
  | appendEntries request =>
    obtain ⟨-, hprev, -⟩ := AppendEntriesRequest.typed_iff.mp hdecodable
    rw [Solo.uses]
    split
    · exact (RaftNode.appendEntriesUses_valid_iff hprev hfits).mpr hcareful
    · exact List.forall_mem_nil _
  | sendAppendEntries call =>
    rw [Solo.uses]
    split
    · split
      · exact RaftNode.requestUses_valid hs hfits _
      · exact List.forall_mem_nil _
    · exact List.forall_mem_nil _
  | receiveAppend response =>
    rw [Solo.uses]
    split
    · next next call hact =>
      cases s.node.peers[next]? with
      | none => exact List.forall_mem_nil _
      | some peer => exact RaftNode.replyUses_valid hs hcareful
    · exact List.forall_mem_nil _
  | _ => exact List.forall_mem_nil _

end Steps

/-- **In every run whose steps are careful, each use is valid**, and so is each of the next
step, if that is careful too. -/
theorem solo_logInRange (nodeId host : Bytes) (port : ℤ) (peers : List RaftPeer) :
    LogInRange (((listening nodeId host port peers).restrict Solo.LogFits).restrict Solo.Careful)
      (fun s a => a.Decodable ∧ s.Careful a) := by
  intro as s h a hnext
  have hkept : s.node.IndicesKept ∧ s.node.log.length < 2 ^ 63 - 1 := by
    refine System.reachable_invariant
      (I := fun s : Solo => s.node.IndicesKept ∧ s.node.log.length < 2 ^ 63 - 1) ?_ ?_ h
    · refine ⟨⟨fun next hnext => ?_, le_refl 0⟩, ?_⟩
      · obtain rfl := List.eq_of_mem_replicate hnext
        decide
      · show (0 : ℕ) < 2 ^ 63 - 1
        decide
    · rintro s a t ⟨hs, hfits⟩ hstep
      obtain ⟨hcareful, hstep⟩ := System.step_restrict.mp hstep
      obtain ⟨hlog, hstep⟩ := System.step_restrict.mp hstep
      obtain ⟨-, hstep⟩ := System.step_restrict.mp hstep
      exact ⟨(Solo.step_cases hstep).indicesKept hs hfits hcareful, hlog t hstep⟩
  exact Solo.uses_valid hkept.1 hkept.2 hnext.1 hnext.2

/-- `A`, with one peer. -/
def samplePair : System Solo Solo.Action :=
  listening (utf8 "A") (utf8 "h") 1 [⟨utf8 "B", utf8 "h", 2⟩]

/-- `A` leads term 1; in its first round it sends `B` an entry, and `B` answers that it has it. -/
def sampleAnswered : List Solo.Action :=
  [.electionTimeout, .sendRequestVote 0, .receiveVote { voteGranted := true },
    .finishElection, .operate (.propose (utf8 "set") (utf8 "x")), .startHeartbeat,
    .sendAppendEntries 1, .receiveAppend { term := 1, success := true, matchIndex := 1 },
    .finishHeartbeat, .startHeartbeat]

/-- The next round looks up the entry before those it sends. -/
theorem solo_logInRange_sample :
    ∃ s, ((samplePair.restrict Solo.LogFits).restrict Solo.Careful).exec samplePair.init
        sampleAnswered = some s ∧
      Use.access 1 0 ∈ s.uses (.sendAppendEntries 2) ∧
      ∀ use ∈ s.uses (.sendAppendEntries 2), use.Valid := by
  obtain ⟨s, hs, huse⟩ := ((samplePair.restrict Solo.LogFits).restrict
    Solo.Careful).exists_exec_of_any samplePair.init sampleAnswered
    (fun s => decide (Use.access 1 0 ∈ s.uses (.sendAppendEntries 2))) (by decide +kernel)
  exact ⟨s, hs, of_decide_eq_true huse,
    solo_logInRange _ _ _ _ _ s hs (.sendAppendEntries 2) ⟨trivial, trivial⟩⟩

/-- `A` leads term 1; `B` answers its first round that it has the entry before the first. -/
def sampleBelowZero : List Solo.Action :=
  [.electionTimeout, .sendRequestVote 0, .receiveVote { voteGranted := true },
    .finishElection, .startHeartbeat, .sendAppendEntries 1,
    .receiveAppend { success := true, matchIndex := -1 }, .finishHeartbeat, .startHeartbeat]

/-- The next round begins to copy at the entry before the first. -/
theorem sampleBelowZero_outOfRange : ¬ ∀ (nodeId host : Bytes) (port : ℤ)
    (peers : List RaftPeer), LogInRange ((listening nodeId host port peers).restrict Solo.LogFits)
      (fun _ a => a.Decodable) := by
  intro h
  obtain ⟨s, hs, huse⟩ := (samplePair.restrict Solo.LogFits).exists_exec_of_any
    samplePair.init sampleBelowZero
    (fun s => decide (Use.access 0 (-1) ∈ s.uses (.sendAppendEntries 2))) (by decide +kernel)
  have hvalid := h _ _ _ _ _ s hs (.sendAppendEntries 2) trivial _ (of_decide_eq_true huse)
  exact absurd hvalid (by decide)
