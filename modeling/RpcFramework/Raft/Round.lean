import RpcFramework.Raft.Append
import RpcFramework.Raft.CommitIndex

/-!
# A heartbeat round

One round of `heartbeatLoop` at a leader whose peers are all reached: each gets its request,
handles it, and its reply is treated before the next request is built.  The commit index
moves only while a reply is treated.

A reply that is all defaults is an empty string, which `sendAppendEntries` takes for none.
The mutexes are taken as re-entrant.

## Main definitions

* `RaftNode.exchange` — one call of the round, at both ends.
* `RaftNode.heartbeatRound` — the round.
* `RaftNode.CommitsRound` — the round commits every entry of the leader's term.

## Main results

* `RaftNode.commitsRound_iff` — **when a round that brings every log up to date does.**
-/

open Rpc

namespace RaftNode

/-- What a peer is left with, and what it replied. -/
structure Answer where
  follower : RaftNode
  response : AppendEntriesResponse
  deriving DecidableEq, Repr

/-- `sendAppendEntries` to the peer at position `i`, which is in the state `follower`: the
caller and the peer afterwards. -/
def exchange (n : RaftNode) (i : ℕ) (peer : RaftPeer) (follower : RaftNode) :
    Option (RaftNode × Answer) :=
  (n.appendEntriesRequest i).bind fun request =>
    (follower.handleAppendEntries request).map fun (follower', response) =>
      (if response = {} then n else n.handleAppendReply peer response, ⟨follower', response⟩)

/-- The calls of a round from position `i` on. -/
def roundFrom (followers : ℕ → RaftNode) :
    ℕ → List RaftPeer → RaftNode → Option (RaftNode × List Answer)
  | _, [], n => some (n, [])
  | i, peer :: peers, n =>
      (n.exchange i peer (followers i)).bind fun (n', answer) =>
        (roundFrom followers (i + 1) peers n').map fun (last, answers) => (last, answer :: answers)

/-- A round of `heartbeatLoop`, with the peers in the given states. -/
def heartbeatRound (n : RaftNode) (followers : ℕ → RaftNode) : Option (RaftNode × List Answer) :=
  if n.role = .leader then roundFrom followers 0 n.peers n else some (n, [])

section Exchange

variable {n n' follower : RaftNode} {i : ℕ} {peer : RaftPeer} {answer : Answer}

/-- An exchange is a request, its handling, and the treatment of the reply. -/
theorem exchange_cases (h : n.exchange i peer follower = some (n', answer)) :
    ∃ request, n.appendEntriesRequest i = some request ∧
      follower.handleAppendEntries request = some (answer.follower, answer.response) ∧
      n' = if answer.response = {} then n else n.handleAppendReply peer answer.response := by
  obtain ⟨request, hrequest, h⟩ := Option.bind_eq_some_iff.mp h
  obtain ⟨⟨follower', response⟩, hhandle, heq⟩ := Option.map_eq_some_iff.mp h
  obtain ⟨rfl, rfl⟩ := Prod.mk.inj heq
  exact ⟨request, hrequest, hhandle, rfl⟩

/-- A reply of a later term deposes the leader. -/
theorem handleAppendReply_later {response : AppendEntriesResponse}
    (hterm : n.currentTerm < response.term) :
    n.handleAppendReply peer response = n.becomeFollower response.term [] := by
  rw [handleAppendReply, if_pos hterm]

/-- A refusal lets the next request begin one entry earlier, as long as there is one. -/
theorem handleAppendReply_refused {response : AppendEntriesResponse} {j : ℕ}
    (hterm : response.term ≤ n.currentTerm) (hfailed : response.success = false)
    (hfind : n.peers.findIdx? (fun p => p.nodeId == peer.nodeId) = some j) :
    n.handleAppendReply peer response =
      if 1 < n.nextIndex.getD j 0 then
        { n with nextIndex := n.nextIndex.set j (n.nextIndex.getD j 0 - 1) }
      else n := by
  rw [handleAppendReply, if_neg (not_lt.mpr hterm)]
  simp only [hfind, hfailed, Bool.false_eq_true, if_false]

/-- A success is put on record, and the commit index looked at again. -/
theorem handleAppendReply_success {response : AppendEntriesResponse} {j : ℕ}
    (hterm : response.term ≤ n.currentTerm) (hsuccess : response.success = true)
    (hfind : n.peers.findIdx? (fun p => p.nodeId == peer.nodeId) = some j) :
    n.handleAppendReply peer response =
      updateCommitIndex
        { n with
          nextIndex := n.nextIndex.set j (response.matchIndex + 1)
          matchIndex := n.matchIndex.set j response.matchIndex } := by
  rw [handleAppendReply, if_neg (not_lt.mpr hterm)]
  simp only [hfind, hsuccess, if_true]

/-- A node that is no leader commits nothing by a reply. -/
theorem handleAppendReply_commitIndex (hrole : n.role ≠ .leader) (peer : RaftPeer)
    (response : AppendEntriesResponse) :
    (n.handleAppendReply peer response).role ≠ .leader ∧
      (n.handleAppendReply peer response).commitIndex = n.commitIndex := by
  refine ⟨fun h => hrole (n.role_handleAppendReply peer response h), ?_⟩
  rcases n.handleAppendReply_cases peer response with
    ⟨-, heq⟩ | ⟨-, ⟨i, next, -, heq⟩ | ⟨-, i, -, heq⟩⟩
  · rw [heq]
    rfl
  · rw [heq]
  · rw [heq, updateCommitIndex, if_neg hrole]

/-- A request begins behind `next_index_`, which is at least one. -/
theorem prevLogIndex_of_request {request : AppendEntriesRequest}
    (hrequest : n.appendEntriesRequest i = some request) :
    ∃ next, n.nextIndex[i]? = some next ∧ 1 ≤ next ∧ request.prevLogIndex = next - 1 := by
  obtain ⟨next, hnext, h⟩ := Option.bind_eq_some_iff.mp hrequest
  split at h
  · cases h
  · next hone =>
    obtain rfl := Option.some.inj h
    exact ⟨next, hnext, not_lt.mp hone, rfl⟩

/-- A log is consistent with the requests built from it, up to its end. -/
theorem logConsistent_self {log : List LogEntry} {request : AppendEntriesRequest}
    (hs : Snapshot log request) (hle : request.prevLogIndex ≤ log.length) :
    logConsistent log request := by
  intro hpos
  have hlt : (request.prevLogIndex - 1).toNat < log.length := by omega
  refine ⟨hle, ?_⟩
  rw [List.getElem?_eq_getElem hlt, Option.map_some]
  exact congrArg some
    (hs.attach _ _ (by omega) (List.getElem?_eq_getElem hlt)).symm

/-- If the peer's log ends up equal to the leader's, then a request that is not outdated is
accepted just if it attaches within the leader's log. -/
theorem logConsistent_iff_of_same {request : AppendEntriesRequest} (hs : Snapshot n.log request)
    (hterm : follower.currentTerm ≤ request.term)
    (hhandle : follower.handleAppendEntries request = some (answer.follower, answer.response))
    (hsame : answer.follower.log = n.log) :
    logConsistent follower.log request ↔ request.prevLogIndex ≤ n.log.length := by
  constructor
  · intro hcons
    have hadmits : follower.Admits request := ⟨hterm, hcons⟩
    by_cases hentries : request.entries = []
    · rw [hadmits.handleAppendEntries_eq, replaceEntries_of_nil hentries, Option.map_some]
        at hhandle
      have hlog : follower.log = n.log := by
        rw [← hsame, ← (Prod.mk.inj (Option.some.inj hhandle)).1]
        rfl
      rw [← hlog]
      exact hadmits.le_length
    · have hwithin := mt (entries_eq_nil_iff hs).mpr hentries
      omega
  · intro hle
    by_contra hcons
    have hrefused := handleAppendEntries_refused (fun h => hcons h.2) hhandle
    rw [← hrefused.2.1, hsame] at hcons
    exact hcons (logConsistent_self hs hle)

end Exchange

/-! ### What the leader has on record -/

/-- The reply of the peer at position `i` is a success, and finds the leader still leading: the
request attaches within the leader's log, and no peer up to this one is in a later term. -/
def Confirms (n : RaftNode) (followers : ℕ → RaftNode) (i : ℕ) : Prop :=
  n.nextIndex.getD i 0 ≤ n.log.length + 1 ∧
    ∀ j ≤ i, (followers j).currentTerm ≤ n.currentTerm

instance (n : RaftNode) (followers : ℕ → RaftNode) (i : ℕ) : Decidable (n.Confirms followers i) :=
  inferInstanceAs (Decidable (_ ∧ _))

/-- The position under which the account of the `i`-th peer is kept: that of the first peer of
its name. -/
def slot (n : RaftNode) (i : ℕ) : Option ℕ :=
  (n.peers[i]?).bind fun peer => n.peers.findIdx? fun p => p.nodeId == peer.nodeId

/-- Once the first `k` peers have replied, the account at position `j` covers the index. -/
def Covers (n : RaftNode) (followers : ℕ → RaftNode) (k : ℕ) (index : ℤ) (j : ℕ) : Prop :=
  index ≤ n.matchIndex.getD j 0 ∨ ∃ i < k, n.Confirms followers i ∧ n.slot i = some j

instance (n : RaftNode) (followers : ℕ → RaftNode) (k : ℕ) (index : ℤ) (j : ℕ) :
    Decidable (n.Covers followers k index j) :=
  inferInstanceAs (Decidable (_ ∨ _))

/-- How many nodes have the entry at the index then, the leader among them. -/
def copies (n : RaftNode) (followers : ℕ → RaftNode) (k : ℕ) (index : ℤ) : ℕ :=
  (List.range n.matchIndex.length).countP (fun j => decide (n.Covers followers k index j)) + 1

section Copies

variable {n : RaftNode} {followers : ℕ → RaftNode} {k : ℕ} {index index' : ℤ}

theorem slot_of_peer {peer : RaftPeer} (hpeer : n.peers[k]? = some peer) :
    ∃ j ≤ k, n.slot k = some j ∧
      n.peers.findIdx? (fun p => p.nodeId == peer.nodeId) = some j := by
  obtain ⟨hlt, hget⟩ := List.getElem?_eq_some_iff.mp hpeer
  have hslot : n.slot k = n.peers.findIdx? fun p => p.nodeId == peer.nodeId := by
    rw [slot, hpeer, Option.bind_some]
  cases hfind : n.peers.findIdx? (fun p => p.nodeId == peer.nodeId) with
  | none =>
    have hnone := List.findIdx?_eq_none_iff.mp hfind peer (hget ▸ List.getElem_mem hlt)
    simp at hnone
  | some j =>
    refine ⟨j, ?_, hslot.trans hfind, rfl⟩
    by_contra hgt
    obtain ⟨_, _, hbefore⟩ := List.findIdx?_eq_some_iff_getElem.mp hfind
    exact hbefore k (not_le.mp hgt) (by rw [hget, beq_self_eq_true])

/-- More replies and lower indices make for more copies. -/
theorem copies_mono {k' : ℕ} (hk : k ≤ k') (hindex : index' ≤ index) :
    n.copies followers k index ≤ n.copies followers k' index' := by
  refine Nat.succ_le_succ (List.countP_mono_left fun j _ hj => ?_)
  rw [decide_eq_true_eq] at hj ⊢
  rcases hj with hrecorded | ⟨i, hi, hconfirms⟩
  · exact Or.inl (hindex.trans hrecorded)
  · exact Or.inr ⟨i, hi.trans_le hk, hconfirms⟩

/-- A reply that is no success confirms nothing. -/
theorem exists_confirms_succ {P : ℕ → Prop} (h : n.Confirms followers k → ¬ P k) :
    (∃ i < k + 1, n.Confirms followers i ∧ P i) ↔ ∃ i < k, n.Confirms followers i ∧ P i := by
  constructor
  · rintro ⟨i, hi, hconfirms, hP⟩
    refine ⟨i, lt_of_le_of_ne (Nat.lt_succ_iff.mp hi) ?_, hconfirms, hP⟩
    rintro rfl
    exact h hconfirms hP
  · rintro ⟨i, hi, hconfirms⟩
    exact ⟨i, Nat.lt_succ_of_lt hi, hconfirms⟩

theorem covers_succ_of_not (h : ¬ n.Confirms followers k) (index : ℤ) (j : ℕ) :
    n.Covers followers (k + 1) index j ↔ n.Covers followers k index j :=
  or_congr_right (exists_confirms_succ fun hconfirms => absurd hconfirms h)

theorem copies_succ_of_not (h : ¬ n.Confirms followers k) (index : ℤ) :
    n.copies followers (k + 1) index = n.copies followers k index := by
  refine congrArg Nat.succ (List.countP_congr fun j _ => ?_)
  rw [decide_eq_true_eq, decide_eq_true_eq]
  exact covers_succ_of_not h index j

/-- Counting in a list is counting its positions. -/
theorem countP_eq_countP_range (l : List ℤ) (p : ℤ → Bool) :
    l.countP p = (List.range l.length).countP fun j => p (l.getD j 0) := by
  have hmap : l = (List.range l.length).map fun j => l.getD j 0 := by
    refine List.ext_getElem (by simp) fun j hj _ => ?_
    simp [List.getElem_map, List.getElem_range, List.getElem?_eq_getElem hj]
  conv_lhs => rw [hmap]
  rw [List.countP_map]
  rfl

end Copies

/-! ### The round -/

/-- What is known of the leader before the call at position `k`, as long as it leads. -/
structure Leading (n : RaftNode) (followers : ℕ → RaftNode) (k : ℕ) (m : RaftNode) : Prop where
  role : m.role = .leader
  term : m.currentTerm = n.currentTerm
  log : m.log = n.log
  peers : m.peers = n.peers
  next : ∀ j, k ≤ j → m.nextIndex[j]? = n.nextIndex[j]?
  terms : ∀ j < k, (followers j).currentTerm ≤ n.currentTerm
  length : m.matchIndex.length = n.matchIndex.length
  covers : ∀ index : ℤ, index ≤ n.log.length → ∀ j < n.matchIndex.length,
    (index ≤ m.matchIndex.getD j 0 ↔ n.Covers followers k index j)

/-- A peer before position `k` was in a later term, and the leader leads no longer. -/
structure Deposed (n : RaftNode) (followers : ℕ → RaftNode) (k : ℕ) (m : RaftNode) : Prop where
  role : m.role ≠ .leader
  later : ∃ j < k, n.currentTerm < (followers j).currentTerm

/-- How far the commit index has come before the call at position `k`. -/
structure Progress (n : RaftNode) (followers : ℕ → RaftNode) (k : ℕ) (commit : ℤ) : Prop where
  mono : n.commitIndex ≤ commit
  reached : (∃ i < k, n.Confirms followers i) → ∀ (p : ℕ) (e : LogEntry), n.log[p]? = some e →
    e.term = n.currentTerm → n.majority ≤ n.copies followers k (p + 1) → (p + 1 : ℤ) ≤ commit
  cause : commit = n.commitIndex ∨ (∃ i < k, n.Confirms followers i) ∧
    n.majority ≤ n.copies followers k commit

section Round

variable {n m m' : RaftNode} {followers : ℕ → RaftNode} {k : ℕ} {peer : RaftPeer}
  {answer : Answer}

theorem leading_init (hrole : n.role = .leader) : Leading n followers 0 n where
  role := hrole
  term := rfl
  log := rfl
  peers := rfl
  next _ _ := rfl
  terms _ hj := absurd hj (Nat.not_lt_zero _)
  length := rfl
  covers _ _ _ _ := ⟨Or.inl, fun h => h.elim id fun ⟨_, hi, _⟩ => absurd hi (Nat.not_lt_zero _)⟩

theorem progress_init : Progress n followers 0 n.commitIndex where
  mono := le_refl _
  reached h := h.elim fun _ hi => absurd hi.1 (Nat.not_lt_zero _)
  cause := Or.inl rfl

/-- A leader counts the copies it has on record. -/
theorem Leading.replicaCount_eq (h : Leading n followers k m) {index : ℤ}
    (hindex : index ≤ n.log.length) : m.replicaCount index = n.copies followers k index := by
  rw [replicaCount, copies, countP_eq_countP_range, h.length]
  refine congrArg Nat.succ (List.countP_congr fun j hj => ?_)
  rw [decide_eq_true_eq, decide_eq_true_eq]
  exact h.covers index hindex j (List.mem_range.mp hj)

/-- A call that confirms nothing leaves the progress as it is. -/
theorem Progress.stay {commit : ℤ} (h : Progress n followers k commit)
    (hnot : ¬ n.Confirms followers k) : Progress n followers (k + 1) commit := by
  have hexists : (∃ i < k + 1, n.Confirms followers i) ↔ ∃ i < k, n.Confirms followers i := by
    have hiff := exists_confirms_succ (P := fun _ => True) fun hconfirms => absurd hconfirms hnot
    simp only [and_true] at hiff
    exact hiff
  refine ⟨h.mono, fun hsome p e he hterm => ?_, h.cause.imp_right fun hcause => ?_⟩
  · rw [copies_succ_of_not hnot]
    exact h.reached (hexists.mp hsome) p e he hterm
  · rw [copies_succ_of_not hnot, hexists]
    exact hcause

/-- **A call of the round**, while the leader leads: it is deposed, or refused, or puts the
whole of its log on record for the peer. -/
theorem Leading.call_cases (h : Leading n followers k m) (hpeer : n.peers[k]? = some peer)
    (hstep : m.exchange k peer (followers k) = some (m', answer))
    (hsame : answer.follower.log = n.log) (hreceived : answer.response ≠ {}) :
    n.currentTerm < (followers k).currentTerm ∧ m' = m.becomeFollower (followers k).currentTerm [] ∨
      (followers k).currentTerm ≤ n.currentTerm ∧ ¬ n.Confirms followers k ∧
        (∃ nexts, m' = { m with nextIndex := nexts } ∧
          ∀ i, k < i → nexts[i]? = m.nextIndex[i]?) ∨
      n.Confirms followers k ∧ ∃ j, j ≤ k ∧ n.slot k = some j ∧
        m' = updateCommitIndex
          { m with
            nextIndex := m.nextIndex.set j (n.log.length + 1)
            matchIndex := m.matchIndex.set j n.log.length } := by
  obtain ⟨request, hrequest, hhandle, rfl⟩ := exchange_cases hstep
  obtain ⟨hs, hreqterm, -⟩ := appendEntriesRequest_snapshot hrequest
  obtain ⟨next, hnext, -, hprev⟩ := prevLogIndex_of_request hrequest
  obtain ⟨j, hjk, hslot, hfind⟩ := slot_of_peer hpeer
  rw [h.term] at hreqterm
  rw [h.log] at hs
  rw [← h.peers] at hfind
  rw [h.next k (le_refl k)] at hnext
  -- the request attaches within the log just if `next_index_` allows
  have hattach : n.nextIndex.getD k 0 ≤ n.log.length + 1 ↔
      request.prevLogIndex ≤ n.log.length := by
    rw [List.getD_eq_getElem?_getD, hnext, Option.getD_some, hprev]
    omega
  rw [if_neg hreceived]
  by_cases hlater : n.currentTerm < (followers k).currentTerm
  · left
    refine ⟨hlater, ?_⟩
    have houtdated : request.term < (followers k).currentTerm := by rw [hreqterm]; exact hlater
    rw [handleAppendEntries, if_pos houtdated] at hhandle
    rw [← (Prod.mk.inj (Option.some.inj hhandle)).2]
    exact handleAppendReply_later (by rw [h.term]; exact hlater)
  · right
    have hterm : (followers k).currentTerm ≤ request.term := by
      rw [hreqterm]
      exact not_lt.mp hlater
    have hterm' : (followers k).currentTerm ≤ m.currentTerm := by
      rw [h.term]
      exact not_lt.mp hlater
    have hcons := logConsistent_iff_of_same (n := n) hs hterm hhandle hsame
    have hconfirms : n.Confirms followers k ↔ logConsistent (followers k).log request := by
      rw [hcons, ← hattach, Confirms, and_iff_left]
      intro i hi
      rcases Nat.lt_or_eq_of_le hi with hi | rfl
      · exact h.terms i hi
      · exact not_lt.mp hlater
    rcases handleAppendEntries_cases hhandle with
      ⟨houtdated, -⟩ | ⟨-, hrefused, -, hresponse⟩ | ⟨-, haccepted, log, -, hfollower, hresponse⟩
    · exact absurd hterm (not_le.mpr houtdated)
    · left
      refine ⟨not_lt.mp hlater, mt hconfirms.mp hrefused, ?_⟩
      rw [hresponse, handleAppendReply_refused hterm' rfl hfind]
      split
      · exact ⟨_, rfl, fun i hi => List.getElem?_set_ne (by omega)⟩
      · exact ⟨m.nextIndex, rfl, fun _ _ => rfl⟩
    · right
      have hlog : log = n.log := by rw [← hsame, hfollower]
      refine ⟨hconfirms.mpr haccepted, j, hjk, hslot, ?_⟩
      rw [hresponse, handleAppendReply_success hterm' rfl hfind, hlog]

/-- A node that is deposed stays so, and commits nothing more. -/
theorem Deposed.call (h : Deposed n followers k m)
    (hstep : m.exchange k peer (followers k) = some (m', answer)) :
    Deposed n followers (k + 1) m' ∧ m'.commitIndex = m.commitIndex := by
  obtain ⟨j, hj, hlater⟩ := h.later
  have hlater' : ∃ j < k + 1, n.currentTerm < (followers j).currentTerm :=
    ⟨j, Nat.lt_succ_of_lt hj, hlater⟩
  obtain ⟨request, -, -, rfl⟩ := exchange_cases hstep
  split
  · exact ⟨⟨h.role, hlater'⟩, rfl⟩
  · obtain ⟨hrole, hcommit⟩ := handleAppendReply_commitIndex h.role peer answer.response
    exact ⟨⟨hrole, hlater'⟩, hcommit⟩

/-- Where the account of a peer is brought up to date, one more position covers the log. -/
theorem Leading.covers_succ (h : Leading n followers k m) {j : ℕ}
    (hconfirms : n.Confirms followers k) (hslot : n.slot k = some j) {index : ℤ}
    (hindex : index ≤ n.log.length) {i : ℕ} (hi : i < n.matchIndex.length) :
    index ≤ (m.matchIndex.set j n.log.length).getD i 0 ↔ n.Covers followers (k + 1) index i := by
  have hlength := h.length
  by_cases hij : j = i
  · subst hij
    rw [List.getD_eq_getElem?_getD, List.getElem?_set_self (by omega), Option.getD_some]
    exact iff_of_true hindex (Or.inr ⟨k, Nat.lt_succ_self k, hconfirms, hslot⟩)
  · rw [List.getD_eq_getElem?_getD, List.getElem?_set_ne hij, ← List.getD_eq_getElem?_getD,
      h.covers index hindex i hi]
    refine or_congr_right (exists_confirms_succ fun _ hslot' => hij ?_).symm
    exact Option.some.inj (hslot.symm.trans hslot')

/-- Looking at the commit index after a success brings it to everything that enough nodes have
by then. -/
theorem Leading.commit (h : Leading n followers (k + 1) m)
    (hp : Progress n followers k m.commitIndex) (hconfirms : n.Confirms followers k) :
    (Leading n followers (k + 1) m.updateCommitIndex ∨
        Deposed n followers (k + 1) m.updateCommitIndex) ∧
      Progress n followers (k + 1) m.updateCommitIndex.commitIndex := by
  have hsome : ∃ i < k + 1, n.Confirms followers i := ⟨k, Nat.lt_succ_self k, hconfirms⟩
  have hmajority : m.majority = n.majority := by rw [majority, majority, h.peers]
  -- what enough nodes have, the loop may stop at
  have hcommittable : ∀ (p : ℕ) (e : LogEntry), n.log[p]? = some e → e.term = n.currentTerm →
      n.majority ≤ n.copies followers (k + 1) (p + 1) → m.commitIndex < p + 1 →
      m.Committable (p + 1) := by
    intro p e he hterm hcopies hlt
    obtain ⟨hp, -⟩ := List.getElem?_eq_some_iff.mp he
    refine committable_succ_iff.mpr ⟨not_le.mpr hlt, ?_, ?_⟩
    · rw [h.log, h.term, he, Option.map_some, hterm]
    · rw [hmajority, h.replicaCount_eq (by omega)]
      exact hcopies
  rcases updateCommitIndex_of_leader h.role with ⟨index, hgreatest, heq⟩ | ⟨hnone, heq⟩
  · rw [heq]
    obtain ⟨hbehind, -, hwithin, -⟩ := hgreatest.1
    rw [h.log] at hwithin
    refine ⟨Or.inl ⟨h.role, h.term, h.log, h.peers, h.next, h.terms, h.length, h.covers⟩, ?_⟩
    show Progress n followers (k + 1) index
    refine ⟨hp.mono.trans hbehind.le, fun _ p e he hterm hcopies => ?_, Or.inr ⟨hsome, ?_⟩⟩
    · rcases lt_or_ge m.commitIndex (p + 1 : ℤ) with hlt | hge
      · have hle : p + 1 ≤ index := hgreatest.2 (hcommittable p e he hterm hcopies hlt)
        exact_mod_cast hle
      · exact hge.trans hbehind.le
    · rw [← h.replicaCount_eq (by exact_mod_cast hwithin), ← hmajority]
      exact hgreatest.1.majority_le
  · rw [heq]
    refine ⟨Or.inl h, hp.mono, fun _ p e he hterm hcopies => ?_, hp.cause.imp_right ?_⟩
    · by_contra hlt
      exact hnone _ (hcommittable p e he hterm hcopies (not_le.mp hlt))
    · rintro ⟨-, hcopies⟩
      exact ⟨hsome, hcopies.trans (copies_mono (Nat.le_succ k) (le_refl _))⟩

/-- **One call keeps what is known of the round.** -/
theorem Leading.call (h : Leading n followers k m) (hp : Progress n followers k m.commitIndex)
    (hpeer : n.peers[k]? = some peer)
    (hstep : m.exchange k peer (followers k) = some (m', answer))
    (hsame : answer.follower.log = n.log) (hreceived : answer.response ≠ {}) :
    (Leading n followers (k + 1) m' ∨ Deposed n followers (k + 1) m') ∧
      Progress n followers (k + 1) m'.commitIndex := by
  have hnext : ∀ {nexts : List ℤ}, (∀ i, k < i → nexts[i]? = m.nextIndex[i]?) →
      ∀ i, k + 1 ≤ i → nexts[i]? = n.nextIndex[i]? := by
    intro nexts hnexts i hi
    rw [hnexts i hi, h.next i (Nat.le_of_succ_le hi)]
  have hterms : (followers k).currentTerm ≤ n.currentTerm →
      ∀ j < k + 1, (followers j).currentTerm ≤ n.currentTerm := by
    intro hterm j hj
    rcases Nat.lt_succ_iff_lt_or_eq.mp hj with hj | rfl
    · exact h.terms j hj
    · exact hterm
  rcases h.call_cases hpeer hstep hsame hreceived with
    ⟨hlater, rfl⟩ | ⟨hterm, hnot, nexts, rfl, hnexts⟩ | ⟨hconfirms, j, hjk, hslot, rfl⟩
  · refine ⟨Or.inr ⟨?_, k, Nat.lt_succ_self k, hlater⟩, hp.stay fun hconfirms => ?_⟩
    · exact fun hrole => by cases hrole
    · exact absurd (hconfirms.2 k (le_refl k)) (not_le.mpr hlater)
  · refine ⟨Or.inl ⟨h.role, h.term, h.log, h.peers, hnext hnexts, hterms hterm, h.length, ?_⟩,
      hp.stay hnot⟩
    intro index hindex i hi
    rw [covers_succ_of_not hnot]
    exact h.covers index hindex i hi
  · have hlead : Leading n followers (k + 1)
        { m with
          nextIndex := m.nextIndex.set j (n.log.length + 1)
          matchIndex := m.matchIndex.set j n.log.length } :=
      ⟨h.role, h.term, h.log, h.peers,
        hnext fun i hi => List.getElem?_set_ne (by omega), hterms (hconfirms.2 k (le_refl k)),
        (List.length_set ..).trans h.length,
        fun index hindex i hi => h.covers_succ hconfirms hslot hindex hi⟩
    exact hlead.commit hp hconfirms

/-- **The rest of a round**, from position `k` on. -/
theorem roundFrom_spec {peers : List RaftPeer} {last : RaftNode} {answers : List Answer}
    (hpeers : n.peers.drop k = peers)
    (h : Leading n followers k m ∨ Deposed n followers k m)
    (hp : Progress n followers k m.commitIndex)
    (hround : roundFrom followers k peers m = some (last, answers))
    (hall : ∀ answer ∈ answers, answer.follower.log = n.log ∧ answer.response ≠ {}) :
    Progress n followers (k + peers.length) last.commitIndex := by
  induction peers generalizing k m last answers with
  | nil =>
    obtain ⟨rfl, -⟩ := Prod.mk.inj (Option.some.inj hround)
    exact hp
  | cons peer peers ih =>
    obtain ⟨⟨m', answer⟩, hstep, hround⟩ := Option.bind_eq_some_iff.mp hround
    obtain ⟨⟨last', answers'⟩, hrest, heq⟩ := Option.map_eq_some_iff.mp hround
    obtain ⟨rfl, rfl⟩ := Prod.mk.inj heq
    have hpeer : n.peers[k]? = some peer := by
      rw [← Nat.add_zero k, ← List.getElem?_drop, hpeers]
      rfl
    have hdrop : n.peers.drop (k + 1) = peers := by
      rw [← List.drop_drop, hpeers]
      rfl
    obtain ⟨hsame, hreceived⟩ := hall answer List.mem_cons_self
    have hall' : ∀ answer ∈ answers', answer.follower.log = n.log ∧ answer.response ≠ {} :=
      fun answer hanswer => hall answer (List.mem_cons_of_mem _ hanswer)
    rw [List.length_cons, show k + (peers.length + 1) = k + 1 + peers.length by omega]
    rcases h with h | h
    · obtain ⟨hnext, hp'⟩ := h.call hp hpeer hstep hsame hreceived
      exact ih hdrop hnext hp' hrest hall'
    · obtain ⟨hnext, hcommit⟩ := h.call hstep
      obtain ⟨j, hj, hlater⟩ := h.later
      have hnot : ¬ n.Confirms followers k :=
        fun hconfirms => absurd (hconfirms.2 j hj.le) (not_le.mpr hlater)
      refine ih hdrop (Or.inr hnext) ?_ hrest hall'
      rw [hcommit]
      exact hp.stay hnot

end Round

/-- Every entry of the leader's term is committed. -/
def CommitsRound (n last : RaftNode) : Prop :=
  ∀ (p : ℕ) (e : LogEntry), n.log[p]? = some e → e.term = n.currentTerm →
    (p + 1 : ℤ) ≤ last.commitIndex

/-- **A round that brings every peer's log up to date commits the entries of the leader's
term** exactly if each of them is committed already, or a reply is a success and the leader
then has a majority for it on record. -/
theorem commitsRound_iff {n last : RaftNode} {followers : ℕ → RaftNode} {answers : List Answer}
    (hrole : n.role = .leader) (hround : n.heartbeatRound followers = some (last, answers))
    (hall : ∀ answer ∈ answers, answer.follower.log = n.log ∧ answer.response ≠ {}) :
    CommitsRound n last ↔
      ∀ (p : ℕ) (e : LogEntry), n.log[p]? = some e → e.term = n.currentTerm →
        (p + 1 : ℤ) ≤ n.commitIndex ∨
          (∃ i < n.peers.length, n.Confirms followers i) ∧
            n.majority ≤ n.copies followers n.peers.length (p + 1) := by
  rw [heartbeatRound, if_pos hrole] at hround
  have hp := roundFrom_spec (k := 0) rfl (Or.inl (leading_init hrole)) progress_init hround hall
  rw [Nat.zero_add] at hp
  constructor
  · intro hcommits p e he hterm
    have hle := hcommits p e he hterm
    rcases hp.cause with heq | ⟨hsome, hcopies⟩
    · exact Or.inl (heq ▸ hle)
    · exact Or.inr ⟨hsome, hcopies.trans (copies_mono (le_refl _) hle)⟩
  · intro hcond p e he hterm
    rcases hcond p e he hterm with hle | ⟨hsome, hcopies⟩
    · exact hle.trans hp.mono
    · exact hp.reached hsome p e he hterm hcopies

/-- One peer is enough to commit the entry of a leader of two nodes. -/
theorem commitsRound_sample : ∃ last answers,
    (sampleLeader [sampleEntry 3 1] 0 1).heartbeatRound (fun _ => sampleFollower []) =
        some (last, answers) ∧
      CommitsRound (sampleLeader [sampleEntry 3 1] 0 1) last := by
  obtain ⟨⟨last, answers⟩, hround, hall⟩ := (Option.any_eq_true _ _).mp
    (show ((sampleLeader [sampleEntry 3 1] 0 1).heartbeatRound fun _ => sampleFollower []).any
      (fun round => ∀ answer ∈ round.2, answer.follower.log = [sampleEntry 3 1] ∧
        answer.response ≠ {}) = true by decide +kernel)
  refine ⟨last, answers, hround, (commitsRound_iff rfl hround (of_decide_eq_true hall)).mpr ?_⟩
  intro p e he _
  cases p with
  | zero => exact Or.inr ⟨⟨0, by decide, by decide⟩, by decide⟩
  | succ p => cases he

/-- A leader without peers, with an entry of its term. -/
def sampleAlone : RaftNode :=
  { new (utf8 "A") (utf8 "localhost") 9001 [] with
    role := .leader
    currentTerm := 1
    log := [sampleEntry 1 1] }

/-- Its rounds call nobody, and the entry is never looked at. -/
theorem sampleAlone_notCommitted : ¬ ∀ (n last : RaftNode) (followers : ℕ → RaftNode)
    (answers : List Answer), n.role = .leader →
      n.heartbeatRound followers = some (last, answers) →
      (∀ answer ∈ answers, answer.follower.log = n.log ∧ answer.response ≠ {}) →
        CommitsRound n last := by
  intro h
  have hle := h sampleAlone sampleAlone (fun _ => sampleAlone) [] rfl rfl
    (fun _ hanswer => absurd hanswer List.not_mem_nil) 0 (sampleEntry 1 1) rfl rfl
  exact absurd hle (by decide)

end RaftNode
