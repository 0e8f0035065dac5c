import RpcFramework.Lib.WaitGraph
import RpcFramework.Raft.Election

/-!
# Nodes that wait for each other

A node calls its peers with `state_mutex_` held, and the handlers of its own peers' calls
need that mutex.  So while a node waits for an answer it gives none, and when nodes wait
for each other in a circle no answer ever comes: the client has no timeout.

Two elections at a time are enough for it.

## Main definitions

* `Cluster.waitsFor` — whose answer a node holds its mutex for.
* `NoDistributedDeadlock` — no state that is reached has a circle.
* `Cluster.CallsClear` — nobody is called who waits, through others or not, for the caller.
* `CallsMade` — calls that are referred to have been made.

## Main results

* `cluster_deadlockFree_iff` — **the runs without a circle.**
-/

open Rpc Relation

/-- The call whose answer a node waits for. -/
def Activity.awaitedCall : Activity → Option ℕ
  | .awaitingVote _ _ _ call => some call
  | .awaitingAppend _ call => some call
  | _ => none

namespace Cluster

variable (s : Cluster)

/-- Whose answer node `i` waits for, with its `state_mutex_` held, if the answer is still to
be given. -/
def waitsFor (i : Bytes) : Option Bytes :=
  (s.activity i).awaitedCall.bind fun call =>
    if s.replies.any fun r => r.call == call then none
    else s.requests[call]?.map Envelope.dst

/-- Node `i` waits for node `j`. -/
def Waits (i j : Bytes) : Prop := s.waitsFor i = some j

instance (i j : Bytes) : Decidable (s.Waits i j) := inferInstanceAs (Decidable (_ = _))

/-- Whoever is called waits, through others or not, for somebody other than the caller, or
for nobody. -/
def CallsClear : Action → Prop
  | .sendRequestVote i =>
      match s.activity i with
      | .electing _ (peer :: _) _ => ¬ ReflTransGen s.Waits peer.nodeId i
      | _ => True
  | .sendAppendEntries i =>
      match s.activity i with
      | .heartbeating next =>
          ∀ peer, (s.nodes i).peers[next]? = some peer → ¬ ReflTransGen s.Waits peer.nodeId i
      | _ => True
  | _ => True

open Classical in
noncomputable instance (a : Action) : Decidable (s.CallsClear a) := propDecidable _

/-- No connection breaks. -/
def Unbroken : Action → Prop
  | .loseVote _ => False
  | .loseAppend _ => False
  | _ => True

instance (a : Action) : Decidable (Unbroken a) := by
  unfold Unbroken
  split <;> infer_instance

end Cluster

/-- In no state that is reached do nodes wait for each other in a circle. -/
def NoDistributedDeadlock (S : System Cluster Cluster.Action) : Prop :=
  ∀ (as : List Cluster.Action) (t : Cluster), S.exec S.init as = some t → ¬ WaitCycle t.Waits

/-! ### Calls -/

/-- Answers are answers to calls that were made, and nobody waits for another's answer. -/
def CallsMade : Parts where
  node r _ _ a := ∀ call, a.awaitedCall = some call → call < r.requests.length
  request _ _ := True
  reply r rep := rep.call < r.requests.length
  event _ _ := True

section Calls

variable {cfg : ClusterConfig} {s : Cluster} {i : Bytes} {a : Cluster.Action} {e : Cluster.Effect}

/-- **One step** refers to calls that were made. -/
theorem callsMade_after (hs : CallsMade.Hold s) (hstep : Cluster.Step cfg s a i e) :
    CallsMade.Hold (s.after i e) := by
  have hgrow : s.requests.length ≤ (s.after i e).requests.length := by
    rw [Cluster.requests_after, List.length_append]
    omega
  refine hs.after ⟨?_, fun _ _ => trivial, ?_, fun _ _ => trivial⟩ ⟨?_, fun _ _ => trivial, ?_,
    fun _ _ => trivial⟩
  · intro j n act _ hcalls call hcall
    exact lt_of_lt_of_le (hcalls call hcall) hgrow
  · intro rep hrep
    exact lt_of_lt_of_le hrep hgrow
  · intro call hcall
    cases hstep with
    | sendRequestVote i request peer remaining votes hact =>
      obtain rfl := Option.some.inj hcall
      simp [Cluster.record]
    | sendAppendEntries i next peer request hact hpeer hrequest =>
      obtain rfl := Option.some.inj hcall
      simp [Cluster.record]
    | applyCommitted i hact => exact lt_of_lt_of_le (hs.node i call hcall) hgrow
    | electionTimeout | receiveVote | loseVote | winElection | failElection | startHeartbeat
    | receiveAppend | loseAppend | finishHeartbeat | deliverVote | deliverAppend | propose
    | refuse => simp [Activity.awaitedCall] at hcall
  · intro rep hrep
    cases hstep with
    | deliverVote call src i request n response hrequest hidle hhandle =>
      obtain rfl := List.mem_singleton.mp hrep
      exact lt_of_lt_of_le (List.getElem?_eq_some_iff.mp hrequest).1 hgrow
    | deliverAppend call src i request n response hrequest hidle hhandle =>
      obtain rfl := List.mem_singleton.mp hrep
      exact lt_of_lt_of_le (List.getElem?_eq_some_iff.mp hrequest).1 hgrow
    | electionTimeout | sendRequestVote | receiveVote | loseVote | winElection | failElection
    | startHeartbeat | sendAppendEntries | receiveAppend | loseAppend | finishHeartbeat | propose
    | refuse | applyCommitted => exact absurd hrep List.not_mem_nil

theorem callsMade_start (cfg : ClusterConfig) : CallsMade.Hold (Cluster.start cfg) where
  node i call hcall := by simp [Cluster.start, Activity.awaitedCall] at hcall
  request _ _ := trivial
  reply rep hrep := absurd hrep List.not_mem_nil
  event _ _ := trivial

/-! ### Who waits for whom -/

theorem Cluster.waits_iff {s : Cluster} {i j : Bytes} :
    s.Waits i j ↔ ∃ call env, (s.activity i).awaitedCall = some call ∧
      (∀ r ∈ s.replies, r.call ≠ call) ∧ s.requests[call]? = some env ∧ env.dst = j := by
  unfold Cluster.Waits Cluster.waitsFor
  rw [Option.bind_eq_some_iff]
  constructor
  · rintro ⟨call, hcall, h⟩
    rw [Option.ite_none_left_eq_some, Option.map_eq_some_iff] at h
    obtain ⟨hreply, env, henv, hdst⟩ := h
    refine ⟨call, env, hcall, ?_, henv, hdst⟩
    simpa using hreply
  · rintro ⟨call, env, hcall, hreply, henv, hdst⟩
    refine ⟨call, hcall, ?_⟩
    rw [Option.ite_none_left_eq_some, Option.map_eq_some_iff]
    refine ⟨?_, env, henv, hdst⟩
    simpa using hreply

/-- A step that makes no call leaves nobody waiting who did not wait before. -/
theorem Cluster.waits_of_quiet (hrequests : e.requests = [])
    (hactivity : e.activity.awaitedCall = none ∨ e.activity = s.activity i) {j k : Bytes}
    (h : (s.after i e).Waits j k) : s.Waits j k := by
  obtain ⟨call, env, hcall, hreply, henv, hdst⟩ := Cluster.waits_iff.mp h
  refine Cluster.waits_iff.mpr ⟨call, env, ?_, ?_, ?_, hdst⟩
  · by_cases hj : j = i
    · subst hj
      -- the node itself waits only if it waited for the same answer before
      rw [Cluster.activity_after_self] at hcall
      rcases hactivity with hnone | hsame
      · rw [hnone] at hcall
        exact absurd hcall (by simp)
      · rw [← hsame]
        exact hcall
    · rw [Cluster.activity_after_of_ne s i e hj] at hcall
      exact hcall
  · intro r hr
    exact hreply r (List.mem_append_left _ hr)
  · rw [Cluster.requests_after, hrequests, List.append_nil] at henv
    exact henv

/-- A step that makes a call leaves the caller waiting for who is called. -/
theorem Cluster.waits_of_call (hs : CallsMade.Hold s) {env : Envelope}
    (hrequests : e.requests = [env]) (hreplies : e.replies = [])
    (hbefore : (s.activity i).awaitedCall = none)
    (hafter : e.activity.awaitedCall = some s.requests.length) (j k : Bytes) :
    (s.after i e).Waits j k ↔ s.Waits j k ∨ j = i ∧ k = env.dst := by
  have hlast : (s.after i e).requests[s.requests.length]? = some env := by
    rw [Cluster.requests_after, hrequests]
    simp
  rw [Cluster.waits_iff, Cluster.waits_iff, Cluster.replies_after, hreplies, List.append_nil]
  by_cases hj : j = i
  · subst hj
    rw [Cluster.activity_after_self, hbefore]
    constructor
    · rintro ⟨call, env', hcall, -, henv, hdst⟩
      obtain rfl := Option.some.inj (hafter.symm.trans hcall)
      obtain rfl := Option.some.inj (hlast.symm.trans henv)
      exact Or.inr ⟨rfl, hdst.symm⟩
    · rintro (⟨call, -, hcall, -⟩ | ⟨-, rfl⟩)
      · exact absurd hcall (by simp)
      · -- the call is new, so nobody has answered it
        refine ⟨_, env, hafter, ?_, hlast, rfl⟩
        intro r hr
        exact ne_of_lt (hs.reply r hr)
  · rw [Cluster.activity_after_of_ne s i e hj, or_iff_left fun h => hj h.1]
    constructor
    -- the others wait for calls made before this one
    · rintro ⟨call, env', hcall, hreply, henv, hdst⟩
      have hlt : call < s.requests.length := hs.node j call hcall
      rw [Cluster.requests_after, List.getElem?_append_left hlt] at henv
      exact ⟨call, env', hcall, hreply, henv, hdst⟩
    · rintro ⟨call, env', hcall, hreply, henv, hdst⟩
      exact ⟨call, env', hcall, hreply, s.requests_after_of_some i e henv, hdst⟩

/-! ### Circles -/

/-- A step that makes no call closes no circle. -/
theorem waitCycle_of_quiet (hfree : ¬ WaitCycle s.Waits) (hrequests : e.requests = [])
    (hactivity : e.activity.awaitedCall = none ∨ e.activity = s.activity i) :
    ¬ WaitCycle (s.after i e).Waits := by
  intro hcycle
  exact hfree (waitCycle_of_le (fun _ _ h => Cluster.waits_of_quiet hrequests hactivity h) hcycle)

/-- **The condition admits just the steps that close no circle.** -/
theorem callsClear_iff (hs : CallsMade.Hold s) (hfree : ¬ WaitCycle s.Waits)
    (hstep : Cluster.Step cfg s a i e) :
    s.CallsClear a ↔ ¬ WaitCycle (s.after i e).Waits := by
  cases hstep with
  | sendRequestVote i request peer remaining votes hact =>
    rw [waitCycle_insert_iff (Cluster.waits_of_call hs rfl rfl (by rw [hact]; rfl) rfl) hfree]
    simp only [Cluster.CallsClear, hact]
  | sendAppendEntries i next peer request hact hpeer hrequest =>
    rw [waitCycle_insert_iff (Cluster.waits_of_call hs rfl rfl (by rw [hact]; rfl) rfl) hfree]
    simp only [Cluster.CallsClear, hact, hpeer, Option.some.injEq, forall_eq']
  | applyCommitted i hact =>
    exact iff_of_true trivial (waitCycle_of_quiet hfree rfl (Or.inr rfl))
  | electionTimeout | receiveVote | loseVote | winElection | failElection | startHeartbeat
  | receiveAppend | loseAppend | finishHeartbeat | deliverVote | deliverAppend | propose
  | refuse => exact iff_of_true trivial (waitCycle_of_quiet hfree rfl (Or.inl rfl))

end Calls

/-- **The runs without a circle** are those in which nobody is called who waits for the
caller. -/
theorem cluster_deadlockFree_iff (cfg : ClusterConfig) {as : List Cluster.Action} {t : Cluster}
    (h : (cluster cfg).exec (Cluster.start cfg) as = some t) :
    (∀ u ∈ (cluster cfg).visited (Cluster.start cfg) as, ¬ WaitCycle u.Waits) ↔
      ((cluster cfg).restrict Cluster.CallsClear).exec (Cluster.start cfg) as = some t := by
  refine System.exec_restrict_iff_of_invariant (I := CallsMade.Hold) ?_ ?_ (callsMade_start cfg)
    ?_ h
  · intro s a t hs hst
    obtain ⟨i, e, hstep, rfl⟩ := Cluster.step_cases hst
    exact callsMade_after hs hstep
  · intro s a t hs hfree hst
    obtain ⟨i, e, hstep, rfl⟩ := Cluster.step_cases hst
    exact callsClear_iff hs hfree hstep
  · rintro ⟨i, hcycle⟩
    -- at the start nobody waits
    obtain ⟨j, hwaits, -⟩ := TransGen.head'_iff.mp hcycle
    exact absurd hwaits (by simp [Cluster.Waits, Cluster.waitsFor, Cluster.start,
      Activity.awaitedCall])

/-- `A` stands and calls `B`. -/
def sampleCall : List Cluster.Action := [.electionTimeout (utf8 "A"), .sendRequestVote (utf8 "A")]

/-- One call alone is free of circles. -/
theorem cluster_deadlockFree_sample :
    ∃ t, (cluster sampleCluster).exec (Cluster.start sampleCluster) sampleCall = some t ∧
      ((∀ u ∈ (cluster sampleCluster).visited (Cluster.start sampleCluster) sampleCall,
          ¬ WaitCycle u.Waits) ↔
        ((cluster sampleCluster).restrict Cluster.CallsClear).exec (Cluster.start sampleCluster)
          sampleCall = some t) := by
  obtain ⟨t, ht⟩ := Option.isSome_iff_exists.mp
    (show ((cluster sampleCluster).exec (Cluster.start sampleCluster) sampleCall).isSome from by
      decide +kernel)
  exact ⟨t, ht, cluster_deadlockFree_iff sampleCluster ht⟩

/-- `A` and `B` stand at the same time and call each other. -/
def sampleRivalCalls : List Cluster.Action :=
  sampleCall ++ [.electionTimeout (utf8 "B"), .sendRequestVote (utf8 "B")]

/-- Both wait for the other, with no connection broken. -/
theorem sampleRivalCalls_deadlock :
    ¬ NoDistributedDeadlock ((cluster sampleCluster).restrict fun _ => Cluster.Unbroken) := by
  intro hfree
  obtain ⟨t, ht, hwait⟩ := System.exists_exec_of_any
    ((cluster sampleCluster).restrict fun _ => Cluster.Unbroken)
    (Cluster.start sampleCluster) sampleRivalCalls
    (fun t => decide (t.Waits (utf8 "A") (utf8 "B") ∧ t.Waits (utf8 "B") (utf8 "A")))
    (by decide +kernel)
  obtain ⟨hAB, hBA⟩ := of_decide_eq_true hwait
  exact hfree _ t ht ⟨utf8 "A", .tail (.single hAB) hBA⟩
