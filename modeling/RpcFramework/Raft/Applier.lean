import RpcFramework.Raft.Replication
import RpcFramework.Raft.Solo

/-!
# The thread that applies

`logApplierLoop` waits in `log_condition_` until committed entries are to be applied or the node
is being stopped.  Here this thread stands beside the sections of the node's other threads and
beside a call of `stop`, and they take their steps in any order.  Entries are appended and the
commit index is moved under `log_mutex_`, and the thread is notified under it.  `stop` clears
`running_` and notifies without the mutex: it may do so after the thread has looked at `running_`
and before it blocks.

The heartbeat's thread keeps `log_mutex_` while a call is on its way.  That it locks the mutex
again to move the commit index, and hangs, is left out here as it is in the cluster.

## Main definitions

* `Applier.advance` — one step of `logApplierLoop`.
* `applying` — a node with this thread and a call of `stop`.
* `Applier.State.Abandoned` — `stop` has notified, and the thread blocks or is about to.
* `Applier.Timely` — the guard: `stop` does not notify between the thread's test and its blocking.

## Main results

* `applier_keepsUp` — **no commit is missed**: while the thread blocks, all is applied.
* `applier_stops` — **the exact condition for `stop` not to wait in vain.**
-/

open Rpc

namespace Applier

/-- Where the thread of `logApplierLoop` is. -/
inductive Place where
  | top
  /-- At the mutex, from the head of the loop or woken from the wait. -/
  | locking
  | testing
  /-- The test was false, and the mutex is not given back yet. -/
  | parking
  | waiting
  /-- Behind the wait, with the mutex. -/
  | ready
  | returned
  deriving DecidableEq, Repr

namespace Place

/-- The places at which the thread has `log_mutex_`. -/
def holds : Place → Bool
  | .testing | .parking | .ready => true
  | _ => false

/-- The places behind a test that was false. -/
def sleeps : Place → Bool
  | .parking | .waiting => true
  | _ => false

/-- What a notification does. -/
def wake : Place → Place
  | .waiting => .locking
  | place => place

theorem sleeps_wake {place : Place} : place.wake.sleeps = true ↔ place = .parking := by
  cases place <;> simp [wake, sleeps]

theorem wake_eq_returned {place : Place} (h : place.wake = .returned) : place = .returned := by
  cases place <;> simp_all [wake]

theorem holds_wake (place : Place) : place.wake.holds = place.holds := by
  cases place <;> rfl

end Place

/-- Where the thread is that calls `stop`. -/
inductive Stopper where
  | outside
  /-- `running_` is false. -/
  | stopping
  /-- All are notified. -/
  | joining
  | returned
  deriving DecidableEq, Repr

structure State where
  solo : Solo
  running : Bool := true
  applier : Place := .top
  stopper : Stopper := .outside

inductive Action where
  /-- A section of the node's other threads. -/
  | node (action : Solo.Action)
  | applier
  | spurious
  | stop
  | notifyAll
  | join
  deriving DecidableEq, Repr

/-- The heartbeat's thread has `log_mutex_`. -/
def holdsLog (s : Solo) : Bool :=
  match s.activity with
  | .awaitingAppend _ _ => true
  | _ => false

/-- The step takes `log_mutex_`. -/
def locksLog (s : Solo) : Solo.Action → Bool
  | .electionTimeout | .sendAppendEntries _ => true
  | .finishElection =>
      match s.activity with
      | .electing _ [] votes => decide (s.node.majority ≤ votes)
      | _ => false
  | .requestVote request =>
      decide (s.node.currentTerm ≤ request.term ∧
        (s.node.observeTerm request.term).canVote request.candidateId)
  | .appendEntries request => decide (s.node.currentTerm ≤ request.term)
  | .operate _ => decide (s.node.role = .leader)
  | _ => false

/-- The step from `s` to `t` notifies `log_condition_`. -/
def notifies (s t : Solo) : Solo.Action → Bool
  -- `appendLogEntry` notifies whatever the commit index
  | .operate _ => decide (s.node.log.length < t.node.log.length)
  | .appendEntries request =>
      decide (s.node.commitIndex < request.leaderCommit) &&
        (s.node.handleAppendEntries request).any fun answer => answer.2.success
  | .receiveAppend _ => decide (s.node.commitIndex < t.node.commitIndex)
  | _ => false

/-- One step of `logApplierLoop`. -/
def advance (s : State) : Option State :=
  match s.applier with
  | .top => some { s with applier := if s.running then .locking else .returned }
  | .locking => if holdsLog s.solo then none else some { s with applier := .testing }
  | .testing =>
      some
        { s with
          applier :=
            if s.running = false ∨ s.solo.node.lastApplied < s.solo.node.commitIndex then .ready
            else .parking }
  | .parking => some { s with applier := .waiting }
  | .ready =>
      if s.running then
        (Solo.step s.solo .applyCommitted).map fun solo => { s with solo := solo, applier := .top }
      else some { s with applier := .returned }
  | .waiting | .returned => none

def step (s : State) : Action → Option State
  | .node action =>
      if action = .applyCommitted ∨ s.applier.holds = true ∧ locksLog s.solo action = true then none
      else
        (Solo.step s.solo action).map fun solo =>
          { s with
            solo := solo
            applier := if notifies s.solo solo action then s.applier.wake else s.applier }
  | .applier => advance s
  | .spurious => if s.applier = .waiting then some { s with applier := .locking } else none
  | .stop =>
      if s.running = true ∧ s.stopper = .outside then
        some { s with running := false, stopper := .stopping }
      else none
  | .notifyAll =>
      if s.stopper = .stopping then
        some { s with applier := s.applier.wake, stopper := .joining }
      else none
  | .join =>
      if s.stopper = .joining ∧ s.applier = .returned then some { s with stopper := .returned }
      else none

/-- `stop` has notified, and the thread blocks or is about to. -/
def State.Abandoned (s : State) : Prop := s.stopper = .joining ∧ s.applier.sleeps = true

instance (s : State) : Decidable s.Abandoned := inferInstanceAs (Decidable (_ ∧ _))

/-- `stop` does not notify between the thread's test and its blocking. -/
def Timely (s : State) : Action → Prop
  | .notifyAll => s.applier ≠ .parking
  | _ => True

instance decidableTimely (s : State) (a : Action) : Decidable (Timely s a) :=
  match a with
  | .notifyAll => inferInstanceAs (Decidable (_ ≠ _))
  | .node _ | .applier | .spurious | .stop | .join => isTrue trivial

end Applier

open Applier

/-- A node, from its start, with the thread that applies and a call of `stop`. -/
def applying (nodeId host : Bytes) (port : ℤ) (peers : List RaftPeer) :
    System Applier.State Applier.Action where
  init := { solo := { node := RaftNode.new nodeId host port peers } }
  step := Applier.step

namespace Applier

/-! ### The sections of the other threads -/

/-- What a section of another thread is to the one that applies: it moves the commit index with
`log_mutex_`, and not forward without a notification. -/
structure Section (s : Solo) (a : Solo.Action) (t : Solo) : Prop where
  lastApplied : t.node.lastApplied = s.node.lastApplied
  unlocked : locksLog s a = false → holdsLog s = false →
    t.node.commitIndex = s.node.commitIndex ∧ holdsLog t = false
  notified : t.node.commitIndex ≤ s.node.commitIndex ∨ notifies s t a = true

section Sections

variable {s t : Solo} {a : Solo.Action}

theorem Section.of_kept (happlied : t.node.lastApplied = s.node.lastApplied)
    (hcommit : t.node.commitIndex = s.node.commitIndex)
    (hlog : locksLog s a = false → holdsLog t = false) : Section s a t :=
  ⟨happlied, fun hlock _ => ⟨hcommit, hlog hlock⟩, Or.inl (le_of_eq hcommit)⟩

theorem holdsLog_of_idle (h : s.activity = .idle) : holdsLog s = false := by
  rw [holdsLog, h]

theorem section_receiveAppend {response : AppendEntriesResponse} {peer : RaftPeer}
    {next call : ℕ} (hact : s.activity = .awaitingAppend next call)
    (ht : t.node = s.node.handleAppendReply peer response) :
    Section s (.receiveAppend response) t := by
  refine ⟨?_, fun _ hfree => ?_, ?_⟩
  · rw [ht]
    rcases s.node.handleAppendReply_cases peer response with
      ⟨-, heq⟩ | ⟨-, ⟨i, next', -, heq⟩ | ⟨-, i, -, heq⟩⟩
    · rw [heq, RaftNode.becomeFollower]
    · rw [heq]
    · obtain ⟨index, hindex⟩ := RaftNode.updateCommitIndex_node
        { s.node with
          nextIndex := s.node.nextIndex.set i (response.matchIndex + 1)
          matchIndex := s.node.matchIndex.set i response.matchIndex }
      rw [heq, hindex]
  · rw [holdsLog, hact] at hfree
    cases hfree
  · exact (le_or_gt t.node.commitIndex s.node.commitIndex).imp_right fun h => decide_eq_true h

theorem section_appendEntries {request : AppendEntriesRequest} {response : AppendEntriesResponse}
    (hidle : s.activity = .idle) (hact : t.activity = s.activity)
    (hhandle : s.node.handleAppendEntries request = some (t.node, response)) :
    Section s (.appendEntries request) t := by
  have hfree : holdsLog t = false := holdsLog_of_idle (hact.trans hidle)
  rcases RaftNode.handleAppendEntries_cases hhandle with
    ⟨-, heq, -⟩ | ⟨-, -, heq, -⟩ | ⟨hterm, -, log, -, heq, hresponse⟩
  · exact .of_kept (by rw [heq]) (by rw [heq]) fun _ => hfree
  · exact .of_kept (by rw [heq]; rfl) (by rw [heq]; rfl) fun _ => hfree
  · refine ⟨by rw [heq]; rfl, fun hlock _ => ?_, ?_⟩
    · exact absurd hterm (of_decide_eq_false hlock)
    · by_cases hcommit : s.node.commitIndex < request.leaderCommit
      · right
        rw [notifies, hhandle, hresponse, decide_eq_true hcommit]
        rfl
      · left
        rw [heq]
        exact le_of_eq (if_neg hcommit)

/-- **Every section of another thread is of this kind.** -/
theorem section_of_step (hne : a ≠ .applyCommitted) (h : Solo.step s a = some t) :
    Section s a t := by
  cases Solo.step_cases h with
  | electionTimeout hidle hrole => exact .of_kept rfl rfl fun hlock => by cases hlock
  | sendRequestVote | loseVote | startHeartbeat | loseAppend | finishHeartbeat =>
    exact .of_kept rfl rfl fun _ => rfl
  | receiveVote request remaining votes call response hact hsome =>
    have hsame := SameLog.handleVoteReply (n := s.node) response
    exact .of_kept hsame.lastApplied hsame.commitIndex fun _ => rfl
  | finishElection request votes hact =>
    unfold RaftNode.finishElection
    split
    · exact .of_kept rfl rfl fun _ => rfl
    · exact .of_kept rfl rfl fun _ => rfl
  | sendAppendEntries call next peer request hact hpeer hrequest =>
    exact .of_kept rfl rfl fun hlock => by cases hlock
  | receiveAppend next call peer response hact hpeer hsome =>
    exact section_receiveAppend hact rfl
  | requestVote request n response hidle hhandle =>
    have hsame := SameLog.handleRequestVote hhandle
    exact .of_kept hsame.lastApplied hsame.commitIndex fun _ => holdsLog_of_idle hidle
  | appendEntries request n response hidle hhandle =>
    exact section_appendEntries hidle rfl hhandle
  | operate operation hidle =>
    rcases Cluster.operate_cases s.node.nodeId s.node operation with heq | ⟨-, _, _, -, -, -, heq⟩
    · exact .of_kept (by rw [heq]) (by rw [heq]) fun _ => holdsLog_of_idle hidle
    · exact .of_kept (by rw [heq]) (by rw [heq]) fun _ => holdsLog_of_idle hidle
  | applyCommitted hact => exact absurd rfl hne

end Sections

/-! ### What a step can do -/

/-- The steps: what each requires and what it comes to. -/
inductive Step (s : State) : Action → State → Prop where
  | node (action : Solo.Action) (solo : Solo) (hne : action ≠ .applyCommitted)
      (hfree : s.applier.holds = true → locksLog s.solo action = false)
      (hstep : Solo.step s.solo action = some solo) :
      Step s (.node action)
        { s with
          solo := solo
          applier := if notifies s.solo solo action then s.applier.wake else s.applier }
  | head (hplace : s.applier = .top) :
      Step s .applier { s with applier := if s.running then .locking else .returned }
  | lock (hplace : s.applier = .locking) (hfree : holdsLog s.solo = false) :
      Step s .applier { s with applier := .testing }
  | goOn (hplace : s.applier = .testing)
      (htest : s.running = false ∨ s.solo.node.lastApplied < s.solo.node.commitIndex) :
      Step s .applier { s with applier := .ready }
  | park (hplace : s.applier = .testing) (hrunning : s.running = true)
      (hdone : s.solo.node.commitIndex ≤ s.solo.node.lastApplied) :
      Step s .applier { s with applier := .parking }
  | block (hplace : s.applier = .parking) : Step s .applier { s with applier := .waiting }
  | apply (solo : Solo) (hplace : s.applier = .ready) (hrunning : s.running = true)
      (hstep : Solo.step s.solo .applyCommitted = some solo) :
      Step s .applier { s with solo := solo, applier := .top }
  | leave (hplace : s.applier = .ready) (hrunning : s.running = false) :
      Step s .applier { s with applier := .returned }
  | spurious (hplace : s.applier = .waiting) : Step s .spurious { s with applier := .locking }
  | stop (hrunning : s.running = true) (hstopper : s.stopper = .outside) :
      Step s .stop { s with running := false, stopper := .stopping }
  | notifyAll (hstopper : s.stopper = .stopping) :
      Step s .notifyAll { s with applier := s.applier.wake, stopper := .joining }
  | join (hstopper : s.stopper = .joining) (hplace : s.applier = .returned) :
      Step s .join { s with stopper := .returned }

section Steps

variable {s t : State} {a : Action}

theorem advance_cases (h : advance s = some t) : Step s .applier t := by
  cases hplace : s.applier with
  | top =>
    simp only [advance, hplace] at h
    exact Option.some.inj h ▸ .head hplace
  | locking =>
    simp only [advance, hplace, Option.ite_none_left_eq_some, Bool.not_eq_true] at h
    exact Option.some.inj h.2 ▸ .lock hplace h.1
  | testing =>
    simp only [advance, hplace, Option.some.injEq] at h
    subst h
    by_cases htest : s.running = false ∨ s.solo.node.lastApplied < s.solo.node.commitIndex
    · rw [if_pos htest]
      exact .goOn hplace htest
    · rw [if_neg htest]
      obtain ⟨hrunning, hdone⟩ := not_or.mp htest
      exact .park hplace (Bool.not_eq_false _ ▸ hrunning) (not_lt.mp hdone)
  | parking =>
    simp only [advance, hplace] at h
    exact Option.some.inj h ▸ .block hplace
  | waiting => simp [advance, hplace] at h
  | ready =>
    simp only [advance, hplace] at h
    split at h
    · next hrunning =>
      obtain ⟨solo, hstep, rfl⟩ := Option.map_eq_some_iff.mp h
      exact .apply solo hplace hrunning hstep
    · next hrunning => exact Option.some.inj h ▸ .leave hplace (Bool.eq_false_iff.mpr hrunning)
  | returned => simp [advance, hplace] at h

/-- **What a step can do.** -/
theorem step_cases (h : step s a = some t) : Step s a t := by
  cases a with
  | node action =>
    simp only [step, Option.ite_none_left_eq_some, not_or, not_and, Bool.not_eq_true] at h
    obtain ⟨⟨hne, hfree⟩, h⟩ := h
    obtain ⟨solo, hstep, rfl⟩ := Option.map_eq_some_iff.mp h
    exact .node action solo hne hfree hstep
  | applier => exact advance_cases h
  | spurious =>
    obtain ⟨hplace, h⟩ := Option.ite_none_right_eq_some.mp h
    exact Option.some.inj h ▸ .spurious hplace
  | stop =>
    obtain ⟨⟨hrunning, hstopper⟩, h⟩ := Option.ite_none_right_eq_some.mp h
    exact Option.some.inj h ▸ .stop hrunning hstopper
  | notifyAll =>
    obtain ⟨hstopper, h⟩ := Option.ite_none_right_eq_some.mp h
    exact Option.some.inj h ▸ .notifyAll hstopper
  | join =>
    obtain ⟨⟨hstopper, hplace⟩, h⟩ := Option.ite_none_right_eq_some.mp h
    exact Option.some.inj h ▸ .join hstopper hplace

end Steps

/-! ### What always holds -/

structure Invariant (s : State) : Prop where
  /-- The thread and that of the heartbeats do not have `log_mutex_` at one time. -/
  exclusive : s.applier.holds = true → holdsLog s.solo = false
  /-- The thread sleeps only when all is applied. -/
  applied : s.applier.sleeps = true → s.solo.node.commitIndex ≤ s.solo.node.lastApplied
  left : s.applier = .returned → s.running = false
  stopped : s.stopper ≠ .outside → s.running = false

theorem invariant_init (node : RaftNode) : Invariant { solo := { node := node } } where
  exclusive := fun h => by cases h
  applied := fun h => by cases h
  left := fun h => by cases h
  stopped := fun h => absurd rfl h

section Invariant

variable {s t : State} {a : Action}

/-- The thread moves, and nothing else. -/
theorem Invariant.move (hs : Invariant s) {place : Place}
    (hexclusive : place.holds = true → holdsLog s.solo = false)
    (happlied : place.sleeps = true → s.solo.node.commitIndex ≤ s.solo.node.lastApplied)
    (hleft : place = .returned → s.running = false) :
    Invariant { s with applier := place } where
  exclusive := hexclusive
  applied := happlied
  left := hleft
  stopped := hs.stopped

theorem Invariant.node (hs : Invariant s) {action : Solo.Action} {solo : Solo}
    (hfree : s.applier.holds = true → locksLog s.solo action = false)
    (hsection : Section s.solo action solo) :
    Invariant
      { s with
        solo := solo
        applier := if notifies s.solo solo action then s.applier.wake else s.applier } := by
  have hholds : (if notifies s.solo solo action then s.applier.wake else s.applier).holds =
      s.applier.holds := by
    split
    · exact s.applier.holds_wake
    · rfl
  refine ⟨fun h => ?_, fun h => ?_, fun h => hs.left ?_, hs.stopped⟩
  · rw [hholds] at h
    exact (hsection.unlocked (hfree h) (hs.exclusive h)).2
  · show solo.node.commitIndex ≤ solo.node.lastApplied
    rw [hsection.lastApplied]
    by_cases hnotified : notifies s.solo solo action = true
    · -- notified, it goes on sleeping only if it has the mutex, and nothing was committed
      rw [if_pos hnotified, Place.sleeps_wake] at h
      have hmutex : s.applier.holds = true := by rw [h]; rfl
      rw [(hsection.unlocked (hfree hmutex) (hs.exclusive hmutex)).1]
      exact hs.applied (by rw [h]; rfl)
    · rw [if_neg hnotified] at h
      exact (hsection.notified.resolve_right hnotified).trans (hs.applied h)
  · dsimp only at h
    split at h
    · exact Place.wake_eq_returned h
    · exact h

/-- **Every step keeps this.** -/
theorem Invariant.step (hs : Invariant s) (hstep : step s a = some t) : Invariant t := by
  cases step_cases hstep with
  | node action solo hne hfree hsolo => exact hs.node hfree (section_of_step hne hsolo)
  | head hplace =>
    by_cases hrunning : s.running = true
    · rw [if_pos hrunning]
      exact hs.move (fun h => by cases h) (fun h => by cases h) fun h => by cases h
    · rw [if_neg hrunning]
      exact hs.move (fun h => by cases h) (fun h => by cases h) fun _ =>
        Bool.eq_false_iff.mpr hrunning
  | lock hplace hfree => exact hs.move (fun _ => hfree) (fun h => by cases h) fun h => by cases h
  | goOn hplace htest =>
    refine hs.move (fun _ => hs.exclusive ?_) (fun h => by cases h) fun h => by cases h
    rw [hplace]
    rfl
  | park hplace hrunning hdone =>
    refine hs.move (fun _ => hs.exclusive ?_) (fun _ => hdone) fun h => by cases h
    rw [hplace]
    rfl
  | block hplace =>
    refine hs.move (fun h => by cases h) (fun _ => hs.applied ?_) fun h => by cases h
    rw [hplace]
    rfl
  | apply solo hplace hrunning hsolo =>
    exact ⟨(fun h => by cases h), (fun h => by cases h), (fun h => by cases h), hs.stopped⟩
  | leave hplace hrunning =>
    exact hs.move (fun h => by cases h) (fun h => by cases h) fun _ => hrunning
  | spurious hplace => exact hs.move (fun h => by cases h) (fun h => by cases h) fun h => by cases h
  | stop hrunning hstopper => exact ⟨hs.exclusive, hs.applied, fun _ => rfl, fun _ => rfl⟩
  | notifyAll hstopper =>
    have hrunning : s.running = false := hs.stopped (by rw [hstopper]; simp)
    refine ⟨fun h => ?_, fun h => ?_, fun _ => hrunning, fun _ => hrunning⟩
    · rw [Place.holds_wake] at h
      exact hs.exclusive h
    · have hplace := Place.sleeps_wake.mp h
      exact hs.applied (by rw [hplace]; rfl)
  | join hstopper hplace => exact ⟨hs.exclusive, hs.applied, hs.left, fun _ => hs.left hplace⟩

end Invariant

/-! ### What the thread does on its own -/

section Own

variable {nodeId host : Bytes} {port : ℤ} {peers : List RaftPeer} {s t u : State}

/-- Some number of the thread's own steps, at most `k`, lead from `s` to `t`. -/
def Leads (k : ℕ) (s t : State) : Prop :=
  ∃ j ≤ k, ∀ nodeId host port peers,
    (applying nodeId host port peers).exec s (List.replicate j .applier) = some t

theorem Leads.refl (k : ℕ) (s : State) : Leads k s s :=
  ⟨0, Nat.zero_le k, fun _ _ _ _ => rfl⟩

theorem Leads.cons {k : ℕ} (hadvance : advance s = some t) (h : Leads k t u) :
    Leads (k + 1) s u := by
  obtain ⟨j, hle, hexec⟩ := h
  refine ⟨j + 1, Nat.succ_le_succ hle, fun nodeId host port peers => ?_⟩
  have hstep : (applying nodeId host port peers).step s .applier = some t := hadvance
  rw [List.replicate_succ, System.exec_cons, hstep, Option.bind_some]
  exact hexec nodeId host port peers

theorem Leads.mono {k k' : ℕ} (h : Leads k s t) (hle : k ≤ k') : Leads k' s t := by
  obtain ⟨j, hj, hexec⟩ := h
  exact ⟨j, hj.trans hle, hexec⟩

/-- What there is to apply is applied in at most four steps. -/
theorem Invariant.leads_apply (hs : Invariant s) (hrunning : s.running = true)
    (hpending : s.solo.node.lastApplied < s.solo.node.commitIndex)
    (hfree : holdsLog s.solo = false) :
    Leads 4 s
      { s with
        solo := { s.solo with node := s.solo.node.applyCommittedEntries.1 }
        applier := .top } := by
  have hawake : s.applier.sleeps ≠ true := fun h => not_lt.mpr (hs.applied h) hpending
  obtain ⟨solo, running, place, stopper⟩ := s
  obtain rfl : running = true := hrunning
  have happly : Solo.step solo .applyCommitted =
      some { solo with node := solo.node.applyCommittedEntries.1 } := by
    cases hact : solo.activity <;> simp_all [Solo.step, holdsLog]
  have hready : Leads 1 ⟨solo, true, .ready, stopper⟩
      ⟨{ solo with node := solo.node.applyCommittedEntries.1 }, true, .top, stopper⟩ :=
    (Leads.refl 0 _).cons (by simp only [advance, if_true, happly, Option.map_some])
  have htesting := hready.cons (s := ⟨solo, true, .testing, stopper⟩)
    (by simp only [advance, if_pos (Or.inr hpending)])
  have hlocking := htesting.cons (s := ⟨solo, true, .locking, stopper⟩)
    (by simp only [advance, hfree]; rfl)
  cases place with
  | top => exact hlocking.cons rfl
  | locking => exact hlocking.mono (by norm_num)
  | testing => exact htesting.mono (by norm_num)
  | ready => exact hready.mono (by norm_num)
  | parking | waiting => exact absurd rfl hawake
  | returned => exact absurd (hs.left rfl) (by simp)

/-- When `running_` is false and it does not sleep, the thread returns in at most three steps. -/
theorem Invariant.leads_returned (hs : Invariant s) (hrunning : s.running = false)
    (hawake : s.applier.sleeps = false) (hfree : holdsLog s.solo = false) :
    Leads 3 s { s with applier := .returned } := by
  obtain ⟨solo, running, place, stopper⟩ := s
  obtain rfl : running = false := hrunning
  have hready : Leads 1 ⟨solo, false, .ready, stopper⟩ ⟨solo, false, .returned, stopper⟩ :=
    (Leads.refl 0 _).cons rfl
  have htesting := hready.cons (s := ⟨solo, false, .testing, stopper⟩)
    (by simp only [advance, true_or, if_true])
  have hlocking := htesting.cons (s := ⟨solo, false, .locking, stopper⟩)
    (by simp only [advance, hfree]; rfl)
  cases place with
  | top => exact ((Leads.refl 0 _).cons rfl).mono (by norm_num)
  | locking => exact hlocking
  | testing => exact htesting.mono (by norm_num)
  | ready => exact hready.mono (by norm_num)
  | parking | waiting => cases hawake
  | returned => exact Leads.refl 3 _

end Own

end Applier

/-! ### Keeping up and stopping -/

section Runs

variable {nodeId host : Bytes} {port : ℤ} {peers : List RaftPeer}

theorem Applier.invariant_exec {as : List Applier.Action} {t : Applier.State}
    (h : (applying nodeId host port peers).exec (applying nodeId host port peers).init as =
      some t) : Applier.Invariant t :=
  System.reachable_invariant (invariant_init _) (fun _ _ _ hs hstep => hs.step hstep) h

/-- Beside the thread the node takes the steps of a node on its own. -/
theorem Applier.exec_solo {as : List Applier.Action} {t : Applier.State}
    (h : (applying nodeId host port peers).exec (applying nodeId host port peers).init as =
      some t) :
    ∃ bs, (solo nodeId host port peers).exec (solo nodeId host port peers).init bs =
      some t.solo := by
  refine System.exec_simulates (solo nodeId host port peers) State.solo (fun _ => True) trivial
    rfl (fun _ _ _ _ _ => trivial) ?_ h
  intro s a t _ hstep
  cases step_cases hstep with
  | node action u hne hfree hsolo => exact Or.inr ⟨action, hsolo⟩
  | apply u hplace hrunning hsolo => exact Or.inr ⟨.applyCommitted, hsolo⟩
  | head | lock | goOn | park | block | leave | spurious | stop | notifyAll | join =>
    exact Or.inl rfl

/-- **No commit is missed**, whatever the order of the threads' sections: while the thread blocks
in `log_condition_`, `last_applied_` has come to `commit_index_`; and when it has not, the
thread comes to apply by its own steps, at most four, unless a call of a heartbeat keeps the
mutex.  The node takes the steps of a node on its own. -/
theorem applier_keepsUp (nodeId host : Bytes) (port : ℤ) (peers : List RaftPeer) :
    ∀ (as : List Applier.Action) (t : Applier.State),
      (applying nodeId host port peers).exec (applying nodeId host port peers).init as = some t →
        (∃ bs, (solo nodeId host port peers).exec (solo nodeId host port peers).init bs =
          some t.solo) ∧
        (t.applier = .waiting → t.solo.node.commitIndex ≤ t.solo.node.lastApplied) ∧
        (t.running = true → t.solo.node.lastApplied < t.solo.node.commitIndex →
          holdsLog t.solo = false → ∃ k ≤ 4, ∃ u,
            (applying nodeId host port peers).exec t (List.replicate k .applier) = some u ∧
              u.solo = { t.solo with node := t.solo.node.applyCommittedEntries.1 }) := by
  intro as t h
  have ht := invariant_exec h
  refine ⟨exec_solo h, fun hplace => ht.applied (by rw [hplace]; rfl), ?_⟩
  intro hrunning hpending hfree
  obtain ⟨k, hk, hexec⟩ := ht.leads_apply hrunning hpending hfree
  exact ⟨k, hk, _, hexec nodeId host port peers, rfl⟩

/-- From a state that is not abandoned, the steps into one that is are those the guard rules
out. -/
theorem Applier.timely_iff {s t : Applier.State} {a : Applier.Action} (hs : Applier.Invariant s)
    (hgood : ¬ s.Abandoned) (hstep : Applier.step s a = some t) : Timely s a ↔ ¬ t.Abandoned := by
  -- most steps are timely, and put nobody to sleep that `stop` has notified
  have hkept : (t.Abandoned → s.Abandoned) → (True ↔ ¬ t.Abandoned) := fun hback =>
    iff_of_true trivial fun ht => hgood (hback ht)
  have hnot : t.stopper ≠ .joining ∨ t.applier.sleeps = false → ¬ t.Abandoned := by
    rintro (hstopper | hawake) ⟨hjoining, hsleeps⟩
    · exact hstopper hjoining
    · rw [hawake] at hsleeps
      cases hsleeps
  cases step_cases hstep with
  | node action u hne hfree hsolo =>
    refine hkept fun ht => ⟨ht.1, ?_⟩
    have hsleeps := ht.2
    dsimp only at hsleeps
    split at hsleeps
    · rw [Place.sleeps_wake.mp hsleeps]
      rfl
    · exact hsleeps
  | head hplace =>
    refine iff_of_true trivial (hnot (Or.inr ?_))
    dsimp only
    split <;> rfl
  | park hplace hrunning hdone =>
    refine iff_of_true trivial (hnot (Or.inl fun hjoining => ?_))
    have hstopped : s.running = false := hs.stopped (by rw [show s.stopper = _ from hjoining]; simp)
    rw [hrunning] at hstopped
    cases hstopped
  | block hplace => exact hkept fun ht => ⟨ht.1, by rw [hplace]; rfl⟩
  | lock | goOn | apply | leave | spurious => exact iff_of_true trivial (hnot (Or.inr rfl))
  | stop | join => exact iff_of_true trivial (hnot (Or.inl (by simp)))
  | notifyAll hstopper =>
    show s.applier ≠ .parking ↔ _
    rw [not_iff_not.symm, not_not, not_not]
    exact ⟨fun hplace => ⟨rfl, Place.sleeps_wake.mpr hplace⟩, fun ht => Place.sleeps_wake.mp ht.2⟩

/-- Only a spurious wake-up or the notification of another section ends it. -/
theorem Applier.State.Abandoned.step {s t : Applier.State} {a : Applier.Action}
    (hs : s.Abandoned) (hstep : Applier.step s a = some t) :
    t.Abandoned ∨ a = .spurious ∨
      ∃ action, a = .node action ∧ notifies s.solo t.solo action = true := by
  obtain ⟨hjoining, hsleeps⟩ := hs
  cases step_cases hstep with
  | node action u hne hfree hsolo =>
    by_cases hnotified : notifies s.solo u action = true
    · exact Or.inr (Or.inr ⟨action, rfl, hnotified⟩)
    · refine Or.inl ⟨hjoining, ?_⟩
      dsimp only
      rw [if_neg hnotified]
      exact hsleeps
  | spurious => exact Or.inr (Or.inl rfl)
  | block hplace => exact Or.inl ⟨hjoining, rfl⟩
  | head hplace | lock hplace | goOn hplace | park hplace | apply _ hplace | leave hplace =>
    rw [hplace] at hsleeps
    cases hsleeps
  | stop hrunning hstopper =>
    rw [hjoining] at hstopper
    cases hstopper
  | notifyAll hstopper =>
    rw [hjoining] at hstopper
    cases hstopper
  | join hstopper hplace =>
    rw [hplace] at hsleeps
    cases hsleeps

/-- **When `stop` ends the thread**: a run never leaves the thread asleep behind the
notification of `stop` exactly if `stop` never notifies between the thread's test and its
blocking.  A thread so left sleeps on until some other section happens to notify it or it wakes
spuriously; otherwise at most three steps of its own and `stop` has joined it. -/
theorem applier_stops (nodeId host : Bytes) (port : ℤ) (peers : List RaftPeer) :
    ∀ (as : List Applier.Action) (t : Applier.State),
      (applying nodeId host port peers).exec (applying nodeId host port peers).init as = some t →
        ((∀ u ∈ (applying nodeId host port peers).visited
              (applying nodeId host port peers).init as, ¬ u.Abandoned) ↔
          ((applying nodeId host port peers).restrict Timely).exec
            (applying nodeId host port peers).init as = some t) ∧
        (t.Abandoned → ∀ (a : Applier.Action) (u : Applier.State), Applier.step t a = some u →
          u.Abandoned ∨ a = .spurious ∨
            ∃ action, a = .node action ∧ notifies t.solo u.solo action = true) ∧
        (t.stopper = .joining → ¬ t.Abandoned → holdsLog t.solo = false → ∃ k ≤ 3, ∃ u,
          (applying nodeId host port peers).exec t (List.replicate k .applier ++ [.join]) =
              some u ∧ u.stopper = .returned) := by
  intro as t h
  have ht := invariant_exec h
  refine ⟨?_, fun habandoned a u hstep => habandoned.step hstep, ?_⟩
  · refine System.exec_restrict_iff_of_invariant (I := Applier.Invariant)
      (fun s a u hs hstep => hs.step hstep) (fun s a u hs hgood hstep => timely_iff hs hgood hstep)
      (invariant_init _) ?_ h
    rintro ⟨hjoining, -⟩
    cases hjoining
  · intro hjoining hgood hfree
    have hrunning : t.running = false := ht.stopped (by rw [hjoining]; simp)
    have hawake : t.applier.sleeps = false := Bool.eq_false_iff.mpr fun h => hgood ⟨hjoining, h⟩
    obtain ⟨k, hk, hexec⟩ := ht.leads_returned hrunning hawake hfree
    refine ⟨k, hk, { t with applier := .returned, stopper := .returned }, ?_, rfl⟩
    rw [System.exec_append, hexec, Option.bind_some, System.exec_cons]
    show (if t.stopper = .joining ∧ Place.returned = .returned then _ else none).bind _ = _
    rw [if_pos ⟨hjoining, rfl⟩]
    rfl

end Runs

/-- The thread blocks, and a leader's entry arrives with its commit. -/
def Applier.sampleCommit : List Applier.Action :=
  [.applier, .applier, .applier, .applier,
    .node (.appendEntries
      { term := 1, leaderId := utf8 "b", leaderCommit := 1,
        entries := [{ term := 1, index := 1 }] })]

theorem applier_keepsUp_sample : ∃ t,
    (applying [] [] 0 []).exec (applying [] [] 0 []).init sampleCommit = some t ∧
      t.solo.node.lastApplied = 0 ∧ ∃ k ≤ 4, ∃ u,
        (applying [] [] 0 []).exec t (List.replicate k .applier) = some u ∧
          u.solo = { t.solo with node := t.solo.node.applyCommittedEntries.1 } := by
  obtain ⟨t, ht, htest⟩ := (applying [] [] 0 []).exists_exec_of_any (applying [] [] 0 []).init
    sampleCommit (fun t => t.running && !holdsLog t.solo &&
      decide (t.solo.node.lastApplied = 0 ∧ t.solo.node.commitIndex = 1)) (by decide +kernel)
  simp only [Bool.and_eq_true, Bool.not_eq_true', decide_eq_true_eq] at htest
  obtain ⟨⟨hrunning, hfree⟩, happlied, hcommit⟩ := htest
  refine ⟨t, ht, happlied, (applier_keepsUp [] [] 0 [] _ t ht).2.2 hrunning ?_ hfree⟩
  rw [happlied, hcommit]
  exact zero_lt_one

/-- `stop` clears `running_` and notifies when the thread has made its test. -/
def Applier.sampleStop : List Applier.Action :=
  [.applier, .applier, .applier, .stop, .notifyAll, .applier]

theorem applier_stops_sample : ∃ t,
    (applying [] [] 0 []).exec (applying [] [] 0 []).init sampleStop = some t ∧
      t.applier = .waiting ∧ t.stopper = .joining ∧
        ((applying [] [] 0 []).restrict Timely).exec (applying [] [] 0 []).init sampleStop ≠
          some t ∧
        ∀ (a : Applier.Action) (u : Applier.State), Applier.step t a = some u →
          u.Abandoned ∨ a = .spurious ∨
            ∃ action, a = .node action ∧ notifies t.solo u.solo action = true := by
  obtain ⟨t, ht, htest⟩ := (applying [] [] 0 []).exists_exec_of_any (applying [] [] 0 []).init
    sampleStop (fun t => decide (t.applier = .waiting ∧ t.stopper = .joining)) (by decide +kernel)
  obtain ⟨hwaiting, hjoining⟩ := of_decide_eq_true htest
  have habandoned : t.Abandoned := ⟨hjoining, by rw [hwaiting]; rfl⟩
  obtain ⟨hiff, hstays, -⟩ := applier_stops [] [] 0 [] _ t ht
  refine ⟨t, ht, hwaiting, hjoining, fun hexec => ?_, hstays habandoned⟩
  exact hiff.mpr hexec t (System.mem_visited_of_exec ht) habandoned
