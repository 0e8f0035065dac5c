import RpcFramework.Raft.Conduct

/-!
# Terms

`current_term_` is assigned from messages in five places, each of which has compared before,
and counted up in one, which has not.

## Main definitions

* `Solo.Action.Decodable` — the network brings what can be a message.
* `listening` — a node on its own, and a network that brings messages.
* `TermsAdvance` — no step of a run takes the term back.

## Main results

* `termsAdvance_iff` — **the runs in which none does.**
-/

open Rpc Wire

/-- A message the network brings holds values of its fields' types. -/
def Solo.Action.Decodable : Solo.Action → Prop
  | .receiveVote response => Typed RequestVoteResponse.schema response
  | .receiveAppend response => Typed AppendEntriesResponse.schema response
  | .requestVote request => Typed RequestVoteRequest.schema request
  | .appendEntries request => Typed AppendEntriesRequest.schema request
  | _ => True

instance (a : Solo.Action) : Decidable a.Decodable :=
  match a with
  | .receiveVote response => inferInstanceAs (Decidable (Typed _ response))
  | .receiveAppend response => inferInstanceAs (Decidable (Typed _ response))
  | .requestVote request => inferInstanceAs (Decidable (Typed _ request))
  | .appendEntries request => inferInstanceAs (Decidable (Typed _ request))
  | .electionTimeout | .sendRequestVote _ | .loseVote | .finishElection | .startHeartbeat
  | .sendAppendEntries _ | .loseAppend | .finishHeartbeat | .operate _ | .applyCommitted =>
      isTrue trivial

/-- A node on its own, that is brought messages. -/
def listening (nodeId host : Bytes) (port : ℤ) (peers : List RaftPeer) : System Solo Solo.Action :=
  (solo nodeId host port peers).restrict fun _ a => a.Decodable

/-- No step of the run takes the term back. -/
def TermsAdvance (S : System Solo Solo.Action) (as : List Solo.Action) : Prop :=
  ∀ p ∈ S.steps S.init as, p.1.node.currentTerm ≤ p.2.2.node.currentTerm

/-! ### Where the term comes from -/

theorem RaftNode.handleVoteReply_currentTerm (n : RaftNode) (response : RequestVoteResponse) :
    (n.handleVoteReply response).1.currentTerm = n.currentTerm ∨
      (n.handleVoteReply response).1.currentTerm = response.term := by
  rcases n.handleVoteReply_cases response with ⟨-, heq⟩ | heq
  · rw [heq]
    exact Or.inr rfl
  · rw [heq]
    exact Or.inl rfl

theorem RaftNode.handleAppendReply_currentTerm (n : RaftNode) (peer : RaftPeer)
    (response : AppendEntriesResponse) :
    (n.handleAppendReply peer response).currentTerm = n.currentTerm ∨
      (n.handleAppendReply peer response).currentTerm = response.term := by
  rcases n.handleAppendReply_cases peer response with
    ⟨-, heq⟩ | ⟨-, ⟨i, next, -, heq⟩ | ⟨-, i, -, heq⟩⟩
  · rw [heq]
    exact Or.inr rfl
  · rw [heq]
    exact Or.inl rfl
  · obtain ⟨index, hindex⟩ := RaftNode.updateCommitIndex_node
      { n with
        nextIndex := n.nextIndex.set i (response.matchIndex + 1)
        matchIndex := n.matchIndex.set i response.matchIndex }
    rw [heq, hindex]
    exact Or.inl rfl

theorem RaftNode.handleRequestVote_currentTerm (n : RaftNode) (request : RequestVoteRequest) :
    (n.handleRequestVote request).1.currentTerm = n.currentTerm ∨
      (n.handleRequestVote request).1.currentTerm = request.term := by
  have hobserve : (n.observeTerm request.term).currentTerm = n.currentTerm ∨
      (n.observeTerm request.term).currentTerm = request.term := by
    rcases n.observeTerm_eq_or request.term with heq | ⟨-, heq⟩
    · rw [heq]
      exact Or.inl rfl
    · rw [heq]
      exact Or.inr rfl
  rcases n.handleRequestVote_cases request with ⟨-, heq⟩ | ⟨-, heq⟩ | ⟨-, -, -, heq⟩
  · rw [heq]
    exact Or.inl rfl
  · rw [heq]
    exact hobserve
  · rw [heq]
    exact hobserve

theorem RaftNode.handleAppendEntries_currentTerm {n n' : RaftNode} {request : AppendEntriesRequest}
    {response : AppendEntriesResponse}
    (h : n.handleAppendEntries request = some (n', response)) :
    n'.currentTerm = n.currentTerm ∨ n'.currentTerm = request.term := by
  rcases RaftNode.handleAppendEntries_cases h with
    ⟨-, rfl, -⟩ | ⟨-, -, rfl, -⟩ | ⟨-, -, log, -, rfl, -⟩
  · exact Or.inl rfl
  · exact Or.inr rfl
  · exact Or.inr rfl

/-! ### Steps -/

section Terms

variable {s t : Solo}

theorem inRange_wrap64 (x : ℤ) : InRange 64 (RaftNode.wrap64 x) := by
  unfold InRange RaftNode.wrap64
  omega

/-- **The term after a step** is the one before, one counted up, or one a message brought. -/
theorem Solo.Step.inRange_currentTerm {a : Solo.Action} (hstep : Solo.Step s a t)
    (hdecodable : a.Decodable) (hterm : InRange 64 s.node.currentTerm) :
    InRange 64 t.node.currentTerm := by
  have htaken : ∀ {x y : ℤ}, x = s.node.currentTerm ∨ x = y → InRange 64 y → InRange 64 x := by
    rintro x y (rfl | rfl) hy
    · exact hterm
    · exact hy
  cases hstep with
  | electionTimeout hidle hrole => exact inRange_wrap64 _
  | receiveVote request remaining votes call response hact hsome =>
    have htyped := RequestVoteResponse.typed_iff.mp hdecodable
    exact htaken (s.node.handleVoteReply_currentTerm response) htyped
  | finishElection request votes hact =>
    show InRange 64 (s.node.finishElection votes).currentTerm
    rw [RaftNode.finishElection]
    split
    · exact hterm
    · exact hterm
  | receiveAppend next call peer response hact hpeer hsome =>
    obtain ⟨htyped, -⟩ := AppendEntriesResponse.typed_iff.mp hdecodable
    exact htaken (s.node.handleAppendReply_currentTerm peer response) htyped
  | requestVote request n response hidle hhandle =>
    obtain ⟨htyped, -⟩ := RequestVoteRequest.typed_iff.mp hdecodable
    obtain rfl : (s.node.handleRequestVote request).1 = n := by rw [hhandle]
    exact htaken (s.node.handleRequestVote_currentTerm request) htyped
  | appendEntries request n response hidle hhandle =>
    obtain ⟨htyped, -⟩ := AppendEntriesRequest.typed_iff.mp hdecodable
    exact htaken (RaftNode.handleAppendEntries_currentTerm hhandle) htyped
  | operate operation hidle =>
    show InRange 64 (Cluster.operate s.node.nodeId s.node operation).1.currentTerm
    rcases Cluster.operate_cases s.node.nodeId s.node operation with
      heq | ⟨-, entry, acknowledged, -, -, -, heq⟩
    · rw [heq]
      exact hterm
    · rw [heq]
      exact hterm
  | applyCommitted hact =>
    obtain ⟨applied, hnode⟩ := s.node.applyCommittedEntries_node
    show InRange 64 s.node.applyCommittedEntries.1.currentTerm
    rw [hnode]
    exact hterm
  | sendRequestVote | loseVote | startHeartbeat | sendAppendEntries | loseAppend
  | finishHeartbeat => exact hterm

/-- **One step** takes the term back just if it counts up the largest one. -/
theorem Solo.Step.currentTerm_le_iff {a : Solo.Action} (hstep : Solo.Step s a t)
    (hterm : InRange 64 s.node.currentTerm) :
    s.node.currentTerm ≤ t.node.currentTerm ↔ s.TermFits a := by
  cases hstep with
  | electionTimeout hidle hrole =>
    show s.node.currentTerm ≤ RaftNode.wrap64 (s.node.currentTerm + 1) ↔
      s.node.currentTerm < 2 ^ 63 - 1
    obtain ⟨hlo, hhi⟩ := hterm
    norm_num at hlo hhi
    unfold RaftNode.wrap64
    omega
  | receiveVote request remaining votes call response hact hsome =>
    exact iff_of_true (Onward.handleVoteReply _ response).term_le trivial
  | finishElection request votes hact =>
    exact iff_of_true (Onward.finishElection _ votes).term_le trivial
  | receiveAppend next call peer response hact hpeer hsome =>
    exact iff_of_true (Onward.handleAppendReply _ peer response).term_le trivial
  | requestVote request n response hidle hhandle =>
    refine iff_of_true ?_ trivial
    have hobserve := (Onward.observeTerm s.node request.term).term_le
    rcases s.node.handleRequestVote_cases request with ⟨-, heq⟩ | ⟨-, heq⟩ | ⟨-, -, -, heq⟩
    · obtain ⟨rfl, -⟩ := Prod.mk.inj (heq.symm.trans hhandle)
      exact le_refl _
    · obtain ⟨rfl, -⟩ := Prod.mk.inj (heq.symm.trans hhandle)
      exact hobserve
    · obtain ⟨rfl, -⟩ := Prod.mk.inj (heq.symm.trans hhandle)
      exact hobserve
  | appendEntries request n response hidle hhandle =>
    exact iff_of_true (Onward.handleAppendEntries hhandle).term_le trivial
  | operate operation hidle => exact iff_of_true (Onward.operate _ _ operation).term_le trivial
  | applyCommitted hact => exact iff_of_true (Onward.applyCommittedEntries _).term_le trivial
  | sendRequestVote | loseVote | startHeartbeat | sendAppendEntries | loseAppend
  | finishHeartbeat => exact iff_of_true (le_refl _) trivial

end Terms

/-- **The term never goes back** in just the runs in which no election takes it past the
largest `int64_t`. -/
theorem termsAdvance_iff {nodeId host : Bytes} {port : ℤ} {peers : List RaftPeer}
    {as : List Solo.Action} {t : Solo}
    (h : (listening nodeId host port peers).exec (listening nodeId host port peers).init as =
      some t) :
    TermsAdvance (listening nodeId host port peers) as ↔
      ((listening nodeId host port peers).restrict Solo.TermFits).exec
        (listening nodeId host port peers).init as = some t := by
  refine System.forall_steps_iff (I := fun s : Solo => InRange 64 s.node.currentTerm)
    (P := fun s _ t => s.node.currentTerm ≤ t.node.currentTerm) ?_ ?_
    (show InRange 64 0 by decide) h
  · intro s a t hterm hstep
    obtain ⟨hdecodable, hstep⟩ := System.step_restrict.mp hstep
    exact (Solo.step_cases hstep).inRange_currentTerm hdecodable hterm
  · intro s a t hterm hstep
    exact (Solo.step_cases (System.step_restrict.mp hstep).2).currentTerm_le_iff hterm

/-- A node that is asked for its vote in the largest term, and then calls an election. -/
def sampleLastTerm : List Solo.Action :=
  [.requestVote { term := 2 ^ 63 - 1, candidateId := utf8 "B" }, .electionTimeout]

/-- An election in the term before it is the last that counts up. -/
theorem termsAdvance_sample : TermsAdvance
    (listening (utf8 "A") (utf8 "h") 1 [⟨utf8 "B", utf8 "h", 2⟩])
    [.requestVote { term := 2 ^ 63 - 2, candidateId := utf8 "B" }, .electionTimeout] := by
  obtain ⟨t, ht, -⟩ := System.exists_exec_of_any
    ((listening (utf8 "A") (utf8 "h") 1 [⟨utf8 "B", utf8 "h", 2⟩]).restrict Solo.TermFits)
    (listening (utf8 "A") (utf8 "h") 1 [⟨utf8 "B", utf8 "h", 2⟩]).init
    [.requestVote { term := 2 ^ 63 - 2, candidateId := utf8 "B" }, .electionTimeout]
    (fun _ => true) (by decide +kernel)
  exact (termsAdvance_iff (System.exec_restrict ht)).mpr ht

theorem sampleLastTerm_goesBack : ¬ ∀ (nodeId host : Bytes) (port : ℤ) (peers : List RaftPeer)
    (as : List Solo.Action) (t : Solo),
    (listening nodeId host port peers).exec (listening nodeId host port peers).init as = some t →
      TermsAdvance (listening nodeId host port peers) as := by
  intro h
  obtain ⟨t, ht, -⟩ := System.exists_exec_of_any
    (listening (utf8 "A") (utf8 "h") 1 [⟨utf8 "B", utf8 "h", 2⟩])
    (listening (utf8 "A") (utf8 "h") 1 [⟨utf8 "B", utf8 "h", 2⟩]).init sampleLastTerm
    (fun _ => true) (by decide +kernel)
  have hadvance := h _ _ _ _ _ t ht
  have hback : ∃ p ∈ (listening (utf8 "A") (utf8 "h") 1 [⟨utf8 "B", utf8 "h", 2⟩]).steps
      (listening (utf8 "A") (utf8 "h") 1 [⟨utf8 "B", utf8 "h", 2⟩]).init sampleLastTerm,
      p.2.2.node.currentTerm < p.1.node.currentTerm := by decide +kernel
  obtain ⟨p, hp, hlt⟩ := hback
  exact absurd (hadvance p hp) (not_le.mpr hlt)
