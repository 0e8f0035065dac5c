import RpcFramework.Raft.Round

/-!
# Repairing a log

One leader and one follower, and round after round of `heartbeatLoop` with nothing else
happening.  A refusal lets the next request begin one entry earlier; from where the logs agree
on, the follower takes over what the leader has.

There is one refusal the leader does not hear of.  The follower answers with the term it was
in before the request; in term zero a refusal is all defaults, which is an empty string on the
wire, and the round ends as if nothing had come back.

## Main definitions

* `RaftNode.heartbeatTo`, `RaftNode.afterRounds`, `RaftNode.replyOfRound` — the rounds.
* `RaftNode.Attaches` — a request that begins here is accepted.
* `RaftNode.RepairedAt` — a round is answered with success, and the log is repaired from
  there on.

## Main results

* `RaftNode.repairs_iff` — **when one of the first `next_index_` rounds is.**
-/

open Rpc

namespace RaftNode

/-- A round of `heartbeatLoop`, as far as the peer at position `i` is concerned. -/
def heartbeatTo (i : ℕ) (peer : RaftPeer) (n follower : RaftNode) : Option (RaftNode × Answer) :=
  if n.role = .leader then n.exchange i peer follower else none

/-- The leader and the follower after a number of rounds. -/
def afterRounds (i : ℕ) (peer : RaftPeer) (n follower : RaftNode) : ℕ → Option (RaftNode × RaftNode)
  | 0 => some (n, follower)
  | k + 1 =>
      (heartbeatTo i peer n follower).bind fun (n', answer) =>
        afterRounds i peer n' answer.follower k

/-- What the follower replies in the round that comes after `k` rounds. -/
def replyOfRound (i : ℕ) (peer : RaftPeer) (n follower : RaftNode) :
    ℕ → Option AppendEntriesResponse
  | 0 => (heartbeatTo i peer n follower).map fun (_, answer) => answer.response
  | k + 1 =>
      (heartbeatTo i peer n follower).bind fun (n', answer) =>
        replyOfRound i peer n' answer.follower k

/-- The round after `k` rounds is answered with success, and from then on the follower's log
begins with `log`. -/
def RepairedAt (i : ℕ) (peer : RaftPeer) (log : List LogEntry) (n follower : RaftNode) (k : ℕ) :
    Prop :=
  (∃ response, replyOfRound i peer n follower k = some response ∧ response.success = true) ∧
    ∀ m, k < m → ∃ n' follower', afterRounds i peer n follower m = some (n', follower') ∧
      log <+: follower'.log

/-- One of the first `rounds` rounds is answered with success, and repairs the follower's log. -/
def Repairs (i : ℕ) (peer : RaftPeer) (n follower : RaftNode) (rounds : ℤ) : Prop :=
  ∃ k : ℕ, k < rounds ∧ RepairedAt i peer n.log n follower k

/-- A request that begins with the entry at `next` attaches: there is nothing before it, or both
logs have an entry of one term right before it. -/
def Attaches (log log' : List LogEntry) (next : ℤ) : Prop :=
  next ≤ 1 ∨ (next - 2).toNat < log.length ∧
    (log[(next - 2).toNat]?).map LogEntry.term = (log'[(next - 2).toNat]?).map LogEntry.term

instance (log log' : List LogEntry) (next : ℤ) : Decidable (Attaches log log' next) :=
  inferInstanceAs (Decidable (_ ∨ _ ∧ _))

section Attaches

variable {n : RaftNode} {log : List LogEntry} {i : ℕ} {next next' : ℤ}
  {request : AppendEntriesRequest}

/-- The follower accepts what attaches; the term zero that stands for an entry the leader does
not have is no entry's. -/
theorem logConsistent_iff_attaches (hrequest : n.appendEntriesRequest i = some request)
    (hnext : n.nextIndex[i]? = some next) (hterms : ∀ e ∈ log, 1 ≤ e.term) :
    logConsistent log request ↔ Attaches n.log log next := by
  obtain ⟨hs, -, -⟩ := appendEntriesRequest_snapshot hrequest
  obtain ⟨next', hnext', -, hprev⟩ := prevLogIndex_of_request hrequest
  obtain rfl : next = next' := Option.some.inj (hnext.symm.trans hnext')
  have hindex : (request.prevLogIndex - 1).toNat = (next - 2).toNat := by omega
  rw [logConsistent, Attaches, hindex]
  constructor
  · intro hcons
    by_cases hone : next ≤ 1
    · exact Or.inl hone
    · obtain ⟨-, hterm⟩ := hcons (by omega)
      obtain ⟨e, he, heterm⟩ := Option.map_eq_some_iff.mp hterm
      have hwithin : (next - 2).toNat < n.log.length := by
        by_contra hbeyond
        have hzero := hs.beyond (by omega)
        have hpos := hterms e (List.mem_of_getElem? he)
        omega
      have hown : n.log[(next - 2).toNat]? = some n.log[(next - 2).toNat] :=
        List.getElem?_eq_getElem hwithin
      refine Or.inr ⟨hwithin, ?_⟩
      rw [hown, he, Option.map_some, Option.map_some, heterm, hs.attach _ _ (by omega) hown]
  · rintro (hone | ⟨hwithin, hsame⟩) hpos
    · omega
    · have hown : n.log[(next - 2).toNat]? = some n.log[(next - 2).toNat] :=
        List.getElem?_eq_getElem hwithin
      rw [hown, Option.map_some] at hsame
      obtain ⟨e, he, -⟩ := Option.map_eq_some_iff.mp hsame.symm
      obtain ⟨hlt, -⟩ := List.getElem?_eq_some_iff.mp he
      refine ⟨by omega, ?_⟩
      rw [← hsame, hs.attach _ _ (by omega) hown]

/-- By log matching, what begins earlier attaches as well. -/
theorem Attaches.mono (h : Attaches n.log log next) (hmatch : LogMatching n.log log)
    (hle : next' ≤ next) : Attaches n.log log next' := by
  by_cases hone : next' ≤ 1
  · exact Or.inl hone
  · rcases h with hfirst | ⟨hwithin, hsame⟩
    · omega
    · have hown : n.log[(next - 2).toNat]? = some n.log[(next - 2).toNat] :=
        List.getElem?_eq_getElem hwithin
      rw [hown, Option.map_some] at hsame
      obtain ⟨e, he, heterm⟩ := Option.map_eq_some_iff.mp hsame.symm
      have htake := hmatch _ _ _ hown he heterm.symm
      have hbefore : (next' - 2).toNat < (next - 2).toNat + 1 := by omega
      refine Or.inr ⟨by omega, ?_⟩
      rw [← List.getElem?_take_of_lt hbefore, htake, List.getElem?_take_of_lt hbefore]

end Attaches

/-! ### One round -/

/-- The leader does not hear of a refusal by the follower: it is in term zero, or the account
of its name is kept under another position. -/
def Unheard (n f : RaftNode) (i : ℕ) : Prop :=
  f.currentTerm = 0 ∨ n.slot i ≠ some i

instance (n f : RaftNode) (i : ℕ) : Decidable (n.Unheard f i) :=
  inferInstanceAs (Decidable (_ ∨ _))

/-- What repairing leaves alone in the leader. -/
structure Steady (n : RaftNode) (m : RaftNode) : Prop where
  role : m.role = .leader
  term : m.currentTerm = n.currentTerm
  log : m.log = n.log
  peers : m.peers = n.peers

/-- The follower's log begins with the leader's. -/
structure Repaired (n : RaftNode) (i : ℕ) (m f : RaftNode) : Prop where
  steady : Steady n m
  nextIndex : ∃ next, m.nextIndex[i]? = some next ∧ 1 ≤ next
  term : f.currentTerm ≤ n.currentTerm
  log : n.log <+: f.log

/-- Nothing was accepted yet: of the leader's state `next_index_` has moved, of the follower's
the term. -/
structure Refusing (n follower : RaftNode) (i : ℕ) (next : ℤ) (m f : RaftNode) : Prop where
  steady : Steady n m
  nextIndex : m.nextIndex[i]? = some next
  pos : 1 ≤ next
  term : f.currentTerm ≤ n.currentTerm
  log : f.log = follower.log

section Rounds

variable {n m f follower : RaftNode} {i : ℕ} {peer : RaftPeer} {next : ℤ}
  {request : AppendEntriesRequest}

theorem exists_request (hnext : m.nextIndex[i]? = some next) (hpos : 1 ≤ next) :
    ∃ request, m.appendEntriesRequest i = some request := by
  rw [appendEntriesRequest, hnext, Option.bind_some, if_neg (not_lt.mpr hpos)]
  exact ⟨_, rfl⟩

/-- A round at a leader is an exchange; its reply is treated unless it is all defaults. -/
theorem Steady.heartbeatTo_eq (h : Steady n m) {f' : RaftNode} {response : AppendEntriesResponse}
    (hrequest : m.appendEntriesRequest i = some request)
    (hhandle : f.handleAppendEntries request = some (f', response)) :
    heartbeatTo i peer m f =
      some (if response = {} then m else m.handleAppendReply peer response, ⟨f', response⟩) := by
  rw [heartbeatTo, if_pos h.role, exchange, hrequest, Option.bind_some, hhandle]
  rfl

/-- Where the request attaches to a log that agrees with the leader's, the entries it brings
make up the rest; one that brings none is at the leader's end. -/
theorem prefix_of_replaceEntries (hs : Snapshot n.log request)
    (hmatch : LogMatching n.log f.log) (hcons : logConsistent f.log request)
    (hlog : request.prevLogIndex ≤ n.log.length ∨ n.log <+: f.log) {log : List LogEntry}
    (hreplace : replaceEntries f.log request = some log) : n.log <+: log := by
  have hnonneg := hs.nonneg
  by_cases hentries : request.entries = []
  · rw [replaceEntries_of_nil hentries] at hreplace
    obtain rfl := Option.some.inj hreplace
    rcases hlog with hle | hlog
    · have hbehind := (entries_eq_nil_iff hs).mp hentries
      have hlength : request.prevLogIndex.toNat = n.log.length := by omega
      have htake := take_eq_of_logMatching hs hmatch hcons hlength.le
      rw [hlength, List.take_length] at htake
      rw [← htake]
      exact List.take_prefix _ _
    · exact hlog
  · have hwithin := mt (entries_eq_nil_iff hs).mpr hentries
    have htake := take_eq_of_logMatching hs hmatch hcons (not_le.mp hwithin).le
    rw [replaceEntries_of_ne_nil hentries hnonneg, htake, hs.entries, List.take_append_drop]
      at hreplace
    rw [← Option.some.inj hreplace]

/-- **An accepted request** repairs the follower's log, and its reply is a success. -/
theorem Steady.accepted (h : Steady n m) (hpeer : n.peers[i]? = some peer)
    (hnext : m.nextIndex[i]? = some next) (hpos : 1 ≤ next)
    (hrequest : m.appendEntriesRequest i = some request) (hmatch : LogMatching n.log f.log)
    (hterm : f.currentTerm ≤ n.currentTerm) (hcons : logConsistent f.log request)
    (hlog : request.prevLogIndex ≤ n.log.length ∨ n.log <+: f.log) :
    ∃ m' answer, heartbeatTo i peer m f = some (m', answer) ∧ answer.response.success = true ∧
      Repaired n i m' answer.follower := by
  obtain ⟨hs, hreqterm, -⟩ := appendEntriesRequest_snapshot hrequest
  rw [h.log] at hs
  rw [h.term] at hreqterm
  obtain ⟨j, -, -, hfind⟩ := slot_of_peer hpeer
  rw [← h.peers] at hfind
  have hadmits : f.Admits request := ⟨by rw [hreqterm]; exact hterm, hcons⟩
  obtain ⟨log, hreplace⟩ : ∃ log, replaceEntries f.log request = some log := by
    by_cases hentries : request.entries = []
    · exact ⟨_, replaceEntries_of_nil hentries⟩
    · exact ⟨_, replaceEntries_of_ne_nil hentries hs.nonneg⟩
  have hhandle := hadmits.handleAppendEntries_eq
  rw [hreplace, Option.map_some] at hhandle
  refine ⟨_, _, h.heartbeatTo_eq hrequest hhandle, rfl, ?_⟩
  have hreceived : ({ term := f.currentTerm, success := true, matchIndex := log.length } :
      AppendEntriesResponse) ≠ {} := by
    intro heq
    cases congrArg AppendEntriesResponse.success heq
  rw [if_neg hreceived,
    handleAppendReply_success (by rw [h.term]; exact hterm) rfl hfind]
  obtain ⟨index, hindex⟩ := updateCommitIndex_node
    { m with
      nextIndex := m.nextIndex.set j ((log.length : ℤ) + 1)
      matchIndex := m.matchIndex.set j log.length }
  obtain ⟨hlt, -⟩ := List.getElem?_eq_some_iff.mp hnext
  rw [hindex]
  refine ⟨⟨h.role, h.term, h.log, h.peers⟩, ?_, ?_, ?_⟩
  · by_cases hij : j = i
    · subst hij
      exact ⟨_, List.getElem?_set_self hlt, by omega⟩
    · exact ⟨next, (List.getElem?_set_ne hij).trans hnext, hpos⟩
  · exact hreqterm.le
  · exact prefix_of_replaceEntries hs hmatch hcons hlog hreplace

/-- A request that does not attach is refused, in the term the follower was in. -/
theorem handleAppendEntries_eq_of_refused (hterm : f.currentTerm ≤ request.term)
    (hcons : ¬ logConsistent f.log request) : f.handleAppendEntries request =
      some (f.becomeFollower request.term request.leaderId, { term := f.currentTerm }) := by
  have hlog : ¬ logConsistent (f.becomeFollower request.term request.leaderId).log request := hcons
  rw [handleAppendEntries, if_neg (not_lt.mpr hterm), if_pos hlog]

/-- **A refused request** brings the follower to the leader's term.  The leader begins one
entry earlier, if it hears of it. -/
theorem Steady.refused (h : Steady n m) (hpeer : n.peers[i]? = some peer)
    (hnext : m.nextIndex[i]? = some next) (hone : 1 < next)
    (hrequest : m.appendEntriesRequest i = some request)
    (hterm : f.currentTerm ≤ n.currentTerm) (hcons : ¬ logConsistent f.log request) :
    ∃ m' answer, heartbeatTo i peer m f = some (m', answer) ∧ answer.response.success = false ∧
      answer.follower.currentTerm = n.currentTerm ∧ answer.follower.log = f.log ∧ Steady n m' ∧
      m'.nextIndex[i]? = some (if n.Unheard f i then next else next - 1) := by
  obtain ⟨-, hreqterm, -⟩ := appendEntriesRequest_snapshot hrequest
  rw [h.term] at hreqterm
  obtain ⟨j, -, hslot, hfind⟩ := slot_of_peer hpeer
  rw [← h.peers] at hfind
  obtain ⟨hlt, -⟩ := List.getElem?_eq_some_iff.mp hnext
  have hhandle := handleAppendEntries_eq_of_refused (f := f) (by rw [hreqterm]; exact hterm) hcons
  refine ⟨_, _, h.heartbeatTo_eq hrequest hhandle, rfl, hreqterm, rfl, ?_⟩
  by_cases hzero : f.currentTerm = 0
  · have hempty : ({ term := f.currentTerm } : AppendEntriesResponse) = {} := by rw [hzero]
    have hunheard : n.Unheard f i := Or.inl hzero
    rw [if_pos hempty, if_pos hunheard]
    exact ⟨h, hnext⟩
  · have hreceived : ({ term := f.currentTerm } : AppendEntriesResponse) ≠ {} :=
      fun heq => hzero (congrArg AppendEntriesResponse.term heq)
    rw [if_neg hreceived, handleAppendReply_refused (by rw [h.term]; exact hterm) rfl hfind]
    by_cases hij : j = i
    · subst hij
      have hgetD : m.nextIndex.getD j 0 = next := by
        rw [List.getD_eq_getElem?_getD, hnext, Option.getD_some]
      have hheard : ¬ n.Unheard f j := not_or.mpr ⟨hzero, not_not.mpr hslot⟩
      rw [hgetD, if_pos hone, if_neg hheard]
      exact ⟨⟨h.role, h.term, h.log, h.peers⟩, List.getElem?_set_self hlt⟩
    · have hunheard : n.Unheard f i := by
        refine Or.inr fun heq => hij ?_
        exact Option.some.inj (hslot.symm.trans heq)
      rw [if_pos hunheard]
      split
      · exact ⟨⟨h.role, h.term, h.log, h.peers⟩, (List.getElem?_set_ne hij).trans hnext⟩
      · exact ⟨h, hnext⟩

/-! ### Round after round -/

theorem unheard_iff (hterm : f.currentTerm = n.currentTerm) : n.Unheard f i ↔ n.Unheard n i := by
  rw [Unheard, Unheard, hterm]

/-- A log that begins with the leader's agrees with it. -/
theorem logMatching_of_extends (h : n.log <+: f.log) : LogMatching n.log f.log := by
  intro p e e' he _ _
  obtain ⟨hlt, -⟩ := List.getElem?_eq_some_iff.mp he
  obtain ⟨rest, hrest⟩ := h
  rw [← hrest, List.take_append_of_le_length hlt]

/-- **A round keeps a repaired log repaired**, whether it is refused or not. -/
theorem Repaired.round (h : Repaired n i m f)
    (hpeer : n.peers[i]? = some peer) :
    ∃ m' answer, heartbeatTo i peer m f = some (m', answer) ∧
      Repaired n i m' answer.follower := by
  obtain ⟨next, hnext, hpos⟩ := h.nextIndex
  obtain ⟨request, hrequest⟩ := exists_request hnext hpos
  by_cases hcons : logConsistent f.log request
  · obtain ⟨m', answer, heq, -, hrepaired⟩ := h.steady.accepted hpeer hnext hpos hrequest
      (logMatching_of_extends h.log) h.term hcons (Or.inr h.log)
    exact ⟨m', answer, heq, hrepaired⟩
  · have hone : 1 < next := by
      obtain ⟨next', hnext', -, hprev⟩ := prevLogIndex_of_request hrequest
      obtain rfl : next = next' := Option.some.inj (hnext.symm.trans hnext')
      by_contra hle
      exact hcons fun hprevious => absurd hprevious (by omega)
    obtain ⟨m', answer, heq, -, hterm, hlog, hsteady, hnext'⟩ :=
      h.steady.refused hpeer hnext hone hrequest h.term hcons
    refine ⟨m', answer, heq, hsteady, ⟨_, hnext', ?_⟩, hterm.le, ?_⟩
    · split <;> omega
    · rw [hlog]
      exact h.log

/-- A repaired log stays repaired for all rounds. -/
theorem Repaired.afterRounds (h : Repaired n i m f)
    (hpeer : n.peers[i]? = some peer) (k : ℕ) :
    ∃ m' f', RaftNode.afterRounds i peer m f k = some (m', f') ∧ n.log <+: f'.log := by
  induction k generalizing m f with
  | zero => exact ⟨m, f, rfl, h.log⟩
  | succ k ih =>
    obtain ⟨m', answer, heq, hrepaired⟩ := h.round hpeer
    rw [RaftNode.afterRounds, heq, Option.bind_some]
    exact ih hrepaired

/-- The first of the rounds is the one that repairs: then its reply is a success. -/
theorem RepairedAt.first {log : List LogEntry} {answer : Answer}
    (h : RepairedAt i peer log m f 0) (heq : heartbeatTo i peer m f = some (n, answer)) :
    answer.response.success = true := by
  obtain ⟨response, hreply, hsuccess⟩ := h.1
  rw [replyOfRound, heq, Option.map_some] at hreply
  have hresponse : answer.response = response := Option.some.inj hreply
  rw [hresponse]
  exact hsuccess

/-- What later rounds repair is seen from the state after the first. -/
theorem repairedAt_succ {log : List LogEntry} {answer : Answer}
    (heq : heartbeatTo i peer m f = some (n, answer)) (k : ℕ) :
    RepairedAt i peer log m f (k + 1) ↔ RepairedAt i peer log n answer.follower k := by
  have hreply : replyOfRound i peer m f (k + 1) = replyOfRound i peer n answer.follower k := by
    rw [replyOfRound, heq, Option.bind_some]
  have hafter : ∀ l, RaftNode.afterRounds i peer m f (l + 1) =
      RaftNode.afterRounds i peer n answer.follower l := by
    intro l
    rw [RaftNode.afterRounds, heq, Option.bind_some]
  rw [RepairedAt, RepairedAt, hreply]
  refine and_congr_right fun _ => ⟨fun h l hl => ?_, fun h l hl => ?_⟩
  · rw [← hafter]
    exact h (l + 1) (Nat.succ_lt_succ hl)
  · obtain ⟨l, rfl⟩ := Nat.exists_eq_succ_of_ne_zero (Nat.ne_zero_of_lt hl)
    rw [Nat.succ_eq_add_one, hafter]
    exact h l (Nat.succ_lt_succ_iff.mp hl)

/-- **One round** repairs just if its request attaches.  If it does not, the leader begins one
entry earlier the next time, if it hears of it. -/
theorem Refusing.round (h : Refusing n follower i next m f)
    (hpeer : n.peers[i]? = some peer)
    (hmatch : LogMatching n.log follower.log) (hterms : ∀ e ∈ follower.log, 1 ≤ e.term) :
    Attaches n.log follower.log next ∧ RepairedAt i peer n.log m f 0 ∨
      ¬ Attaches n.log follower.log next ∧ ¬ RepairedAt i peer n.log m f 0 ∧
        ∃ m' f', (∀ k, RepairedAt i peer n.log m f (k + 1) ↔ RepairedAt i peer n.log m' f' k) ∧
          f'.currentTerm = n.currentTerm ∧
          Refusing n follower i (if n.Unheard f i then next else next - 1) m' f' := by
  obtain ⟨request, hrequest⟩ := exists_request h.nextIndex h.pos
  have hattach : logConsistent f.log request ↔ Attaches n.log follower.log next := by
    rw [logConsistent_iff_attaches hrequest h.nextIndex (h.log ▸ hterms), h.log, h.steady.log]
  by_cases hcons : logConsistent f.log request
  · have hattaches := hattach.mp hcons
    have hwithin : request.prevLogIndex ≤ n.log.length := by
      obtain ⟨next', hnext', -, hprev⟩ := prevLogIndex_of_request hrequest
      obtain rfl : next = next' := Option.some.inj (h.nextIndex.symm.trans hnext')
      rcases hattaches with hone | ⟨hlt, -⟩ <;> omega
    obtain ⟨m', answer, heq, hsuccess, hrepaired⟩ := h.steady.accepted hpeer h.nextIndex h.pos
      hrequest (h.log ▸ hmatch) h.term hcons (Or.inl hwithin)
    refine Or.inl ⟨hattaches, ⟨answer.response, ?_, hsuccess⟩, fun l hl => ?_⟩
    · rw [replyOfRound, heq, Option.map_some]
    · obtain ⟨l, rfl⟩ := Nat.exists_eq_succ_of_ne_zero hl.ne'
      rw [RaftNode.afterRounds, heq, Option.bind_some]
      exact hrepaired.afterRounds hpeer l
  · have hnot := mt hattach.mpr hcons
    have hone : 1 < next := not_le.mp fun hle => hnot (Or.inl hle)
    obtain ⟨m', answer, heq, hfailed, hterm, hlog, hsteady, hnext'⟩ :=
      h.steady.refused hpeer h.nextIndex hone hrequest h.term hcons
    refine Or.inr ⟨hnot, fun hzero => ?_, m', answer.follower, repairedAt_succ heq, hterm,
      hsteady, hnext', ?_, hterm.le, hlog.trans h.log⟩
    · rw [hzero.first heq] at hfailed
      cases hfailed
    · split <;> omega

/-- If the refusals are heard of, the rounds get to where the logs attach. -/
theorem Refusing.repaired (h : Refusing n follower i next m f)
    (hpeer : n.peers[i]? = some peer) (hmatch : LogMatching n.log follower.log)
    (hterms : ∀ e ∈ follower.log, 1 ≤ e.term)
    (hleader : ¬ n.Unheard n i) (hfollower : ¬ n.Unheard f i) {d : ℕ}
    (hattaches : Attaches n.log follower.log (next - d)) :
    ∃ k ≤ d, RepairedAt i peer n.log m f k := by
  induction d generalizing next m f with
  | zero =>
    rcases h.round hpeer hmatch hterms with ⟨-, hrepaired⟩ | ⟨hnot, -⟩
    · exact ⟨0, le_refl 0, hrepaired⟩
    · rw [Nat.cast_zero, sub_zero] at hattaches
      exact absurd hattaches hnot
  | succ d ih =>
    rcases h.round hpeer hmatch hterms with ⟨-, hrepaired⟩ | ⟨-, -, m', f', hlater, hterm, h'⟩
    · exact ⟨0, Nat.zero_le _, hrepaired⟩
    · rw [if_neg hfollower] at h'
      obtain ⟨k, hk, hrepaired⟩ := ih h' (mt (unheard_iff hterm).mp hleader) (by
        rw [sub_sub, add_comm 1]
        exact_mod_cast hattaches)
      exact ⟨k + 1, Nat.succ_le_succ hk, (hlater k).mpr hrepaired⟩

/-- No round gets further than one entry back. -/
theorem Refusing.attaches_of_repairedAt (h : Refusing n follower i next m f)
    (hpeer : n.peers[i]? = some peer) (hmatch : LogMatching n.log follower.log)
    (hterms : ∀ e ∈ follower.log, 1 ≤ e.term) {k : ℕ}
    (hrepaired : RepairedAt i peer n.log m f k) : Attaches n.log follower.log (next - k) := by
  induction k generalizing next m f with
  | zero =>
    rcases h.round hpeer hmatch hterms with ⟨hattaches, -⟩ | ⟨-, hnot, -⟩
    · rw [Nat.cast_zero, sub_zero]
      exact hattaches
    · exact absurd hrepaired hnot
  | succ k ih =>
    rcases h.round hpeer hmatch hterms with ⟨hattaches, -⟩ | ⟨-, -, m', f', hlater, -, h'⟩
    · exact hattaches.mono hmatch (by omega)
    · have hattaches := ih h' ((hlater k).mp hrepaired)
      refine hattaches.mono hmatch ?_
      push_cast
      split <;> omega

/-- If the refusals are heard of, so many rounds get back as many entries, less one. -/
theorem Refusing.exists_repairedAt_iff (h : Refusing n follower i next m f)
    (hpeer : n.peers[i]? = some peer) (hmatch : LogMatching n.log follower.log)
    (hterms : ∀ e ∈ follower.log, 1 ≤ e.term)
    (hleader : ¬ n.Unheard n i) (hfollower : ¬ n.Unheard f i) {rounds : ℤ} (hrounds : 1 ≤ rounds) :
    (∃ k : ℕ, (k : ℤ) < rounds ∧ RepairedAt i peer n.log m f k) ↔
      Attaches n.log follower.log (next - (rounds - 1)) := by
  constructor
  · rintro ⟨k, hk, hrepaired⟩
    exact (h.attaches_of_repairedAt hpeer hmatch hterms hrepaired).mono hmatch (by omega)
  · intro hattaches
    have hcount : ((rounds - 1).toNat : ℤ) = rounds - 1 := by omega
    obtain ⟨k, hk, hrepaired⟩ :=
      h.repaired hpeer hmatch hterms hleader hfollower (hcount.symm ▸ hattaches)
    exact ⟨k, by omega, hrepaired⟩

/-- If no refusal is heard of, the leader does not move from where a request is refused. -/
theorem Refusing.exists_repairedAt_iff_of_unheard (h : Refusing n follower i next m f)
    (hpeer : n.peers[i]? = some peer) (hmatch : LogMatching n.log follower.log)
    (hterms : ∀ e ∈ follower.log, 1 ≤ e.term)
    (hleader : n.Unheard n i) (hfollower : n.Unheard f i) {rounds : ℤ} (hrounds : 1 ≤ rounds) :
    (∃ k : ℕ, (k : ℤ) < rounds ∧ RepairedAt i peer n.log m f k) ↔
      Attaches n.log follower.log next := by
  have hnever : ¬ Attaches n.log follower.log next → ∀ k, ¬ RepairedAt i peer n.log m f k := by
    intro hnot k
    induction k generalizing m f with
    | zero =>
      rcases h.round hpeer hmatch hterms with ⟨hattaches, -⟩ | ⟨-, hfailed, -⟩
      · exact absurd hattaches hnot
      · exact hfailed
    | succ k ih =>
      rcases h.round hpeer hmatch hterms with ⟨hattaches, -⟩ | ⟨-, -, m', f', hlater, hterm, h'⟩
      · exact absurd hattaches hnot
      · rw [if_pos hfollower] at h'
        rw [hlater]
        exact ih h' ((unheard_iff hterm).mpr hleader)
  constructor
  · rintro ⟨k, -, hrepaired⟩
    by_contra hnot
    exact hnever hnot k hrepaired
  · intro hattaches
    rcases h.round hpeer hmatch hterms with ⟨-, hrepaired⟩ | ⟨hnot, -⟩
    · exact ⟨0, by exact_mod_cast hrounds, hrepaired⟩
    · exact absurd hattaches hnot

end Rounds

/-- The first request attaches; or the refusals are heard of, except perhaps the first, which
then costs a round; or only the first is, and the second request attaches. -/
def Reaches (i : ℕ) (n follower : RaftNode) (next : ℤ) : Prop :=
  Attaches n.log follower.log next ∨
    if n.Unheard n i then
      ¬ n.Unheard follower i ∧ Attaches n.log follower.log (next - 1)
    else
      ¬ n.Unheard follower i ∨ Attaches n.log follower.log 2

instance (i : ℕ) (n follower : RaftNode) (next : ℤ) : Decidable (Reaches i n follower next) :=
  inferInstanceAs (Decidable (_ ∨ ite (n.Unheard n i) (_ ∧ _) (_ ∨ _)))

/-- The same follower before it has heard of any term. -/
def sampleFresh : RaftNode :=
  { sampleFollower [] with currentTerm := 0 }

end RaftNode
