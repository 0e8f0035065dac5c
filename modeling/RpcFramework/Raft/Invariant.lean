import RpcFramework.Raft.Cluster

/-!
# Invariants of the cluster, part by part

A step changes one node, may send a request or a reply, and may write events down.  An
invariant that speaks of one node, one request, one reply or one event at a time therefore
asks of a step to establish what is new, and of what was there to survive the growth of
the record of requests and events.

## Main definitions

* `Record` — the requests and the events so far.
* `Parts`, `Parts.Hold` — an invariant in parts.
* `Parts.Survive` — what has to outlast a step of node `i`.

## Main results

* `Parts.Hold.after` — **the step rule for such an invariant.**
-/

open Rpc

/-- What an observer of the network has seen. -/
structure Record where
  requests : List Envelope
  history : List Event

/-- What is to hold of each node with its activity, of each request, of each reply and of
each event. -/
structure Parts where
  node : Record → Bytes → RaftNode → Activity → Prop
  request : Record → Envelope → Prop
  reply : Record → Reply → Prop
  event : Record → Event → Prop

namespace Cluster

variable (s : Cluster) (i : Bytes) (e : Effect)

def record : Record := ⟨s.requests, s.history⟩

@[simp] theorem requests_record : s.record.requests = s.requests := rfl
@[simp] theorem history_record : s.record.history = s.history := rfl

@[simp] theorem requests_after : (s.after i e).requests = s.requests ++ e.requests := rfl
@[simp] theorem replies_after : (s.after i e).replies = s.replies ++ e.replies := rfl
@[simp] theorem history_after : (s.after i e).history = e.events ++ s.history := rfl

theorem nodes_after_self : (s.after i e).nodes i = e.node := by
  simp only [after, Function.update_self]

theorem nodes_after_of_ne {j : Bytes} (h : j ≠ i) : (s.after i e).nodes j = s.nodes j := by
  simp only [after, Function.update_of_ne h]

theorem activity_after_self : (s.after i e).activity i = e.activity := by
  simp only [after, Function.update_self]

theorem activity_after_of_ne {j : Bytes} (h : j ≠ i) :
    (s.after i e).activity j = s.activity j := by
  simp only [after, Function.update_of_ne h]

/-- A request that was there is there, at the same place. -/
theorem requests_after_of_some {call : ℕ} {env : Envelope} (h : s.requests[call]? = some env) :
    (s.after i e).requests[call]? = some env := by
  obtain ⟨hlt, -⟩ := List.getElem?_eq_some_iff.mp h
  rw [requests_after, List.getElem?_append_left hlt]
  exact h

theorem mem_history_after {ev : Event} (h : ev ∈ s.history) : ev ∈ (s.after i e).history :=
  List.mem_append_right e.events h

section Events

variable {i : Bytes} {n : RaftNode} {ev : Event}

theorem mem_voteEvents {request : RequestVoteRequest} {response : RequestVoteResponse}
    (h : ev ∈ voteEvents i n request response) :
    response.voteGranted = true ∧ ev = .voted i request.term request.candidateId n.log := by
  unfold voteEvents at h
  split at h
  · exact ⟨‹_›, List.mem_singleton.mp h⟩
  · exact absurd h (by simp)

theorem mem_appendEvents {request : AppendEntriesRequest} {response : AppendEntriesResponse}
    (h : ev ∈ appendEvents i n request response) :
    response.success = true ∧
      ev = .accepted i request.term
        (n.log.take (request.prevLogIndex.toNat + request.entries.length)) := by
  unfold appendEvents at h
  split at h
  · exact ⟨‹_›, List.mem_singleton.mp h⟩
  · exact absurd h (by simp)

theorem mem_proposeEvents {acknowledged : Bool} {index : ℕ} {entry : LogEntry}
    (h : ev ∈ proposeEvents i acknowledged index entry) :
    acknowledged = true ∧ ev = .acknowledged i index entry ∨ ev = .proposed i entry := by
  rcases List.mem_append.mp h with hack | hprop
  · cases acknowledged with
    | true => exact Or.inl ⟨rfl, List.mem_singleton.mp hack⟩
    | false => exact absurd hack (by simp)
  · exact Or.inr (List.mem_singleton.mp hprop)

end Events

/-- What a step writes down happened at the node that took it. -/
theorem Step.node_of_mem_events {cfg : ClusterConfig} {s : Cluster} {a : Action} {i : Bytes}
    {e : Effect} (h : Step cfg s a i e) : ∀ ev ∈ e.events, ev.node = i := by
  intro ev hev
  cases h with
  | electionTimeout _ | winElection =>
    rw [List.mem_singleton.mp hev]
    rfl
  | sendRequestVote | receiveVote | loseVote | failElection | startHeartbeat | sendAppendEntries
  | receiveAppend | loseAppend | finishHeartbeat | refuse => simp at hev
  | deliverVote =>
    rw [(mem_voteEvents hev).2]
    rfl
  | deliverAppend =>
    rw [(mem_appendEvents hev).2]
    rfl
  | propose =>
    rcases mem_proposeEvents hev with ⟨-, rfl⟩ | rfl
    · rfl
    · rfl
  | applyCommitted =>
    obtain ⟨p, -, rfl⟩ := List.mem_map.mp hev
    rfl

/-- What was written down stays. -/
theorem history_exec {cfg : ClusterConfig} {as : List Action} {s t : Cluster}
    (h : (cluster cfg).exec s as = some t) : s.history <:+ t.history := by
  refine System.exec_relation (I := fun _ => True)
    (R := fun s t : Cluster => s.history <:+ t.history) (fun s => List.suffix_refl _)
    (fun s t u hst htu => hst.trans htu) (fun _ _ _ _ _ => trivial) ?_ trivial h
  intro s a t _ hst
  obtain ⟨i, e, -, rfl⟩ := step_cases hst
  exact List.suffix_append e.events s.history

end Cluster

namespace Parts

/-- The invariant holds of every part. -/
structure Hold (P : Parts) (s : Cluster) : Prop where
  node : ∀ i, P.node s.record i (s.nodes i) (s.activity i)
  request : ∀ env ∈ s.requests, P.request s.record env
  reply : ∀ r ∈ s.replies, P.reply s.record r
  event : ∀ ev ∈ s.history, P.event s.record ev

/-- What is there outlasts a step of node `i`. -/
structure Survive (P : Parts) (i : Bytes) (r r' : Record) : Prop where
  node : ∀ j n a, j ≠ i → P.node r j n a → P.node r' j n a
  request : ∀ env, P.request r env → P.request r' env
  reply : ∀ rep, P.reply r rep → P.reply r' rep
  event : ∀ ev, P.event r ev → P.event r' ev

/-- What a step of node `i` brings. -/
structure Brings (P : Parts) (r : Record) (i : Bytes) (e : Cluster.Effect) : Prop where
  node : P.node r i e.node e.activity
  request : ∀ env ∈ e.requests, P.request r env
  reply : ∀ rep ∈ e.replies, P.reply r rep
  event : ∀ ev ∈ e.events, P.event r ev

variable {P : Parts} {s : Cluster} {i : Bytes} {e : Cluster.Effect}

/-- A step that changes the node alone. -/
theorem Brings.of_node {r : Record} (hnode : P.node r i e.node e.activity)
    (hrequests : e.requests = []) (hreplies : e.replies = []) (hevents : e.events = []) :
    P.Brings r i e where
  node := hnode
  request := by simp [hrequests]
  reply := by simp [hreplies]
  event := by simp [hevents]

/-- **The step rule.** -/
theorem Hold.after (hs : P.Hold s) (hsurvive : P.Survive i s.record (s.after i e).record)
    (hbrings : P.Brings (s.after i e).record i e) : P.Hold (s.after i e) where
  node j := by
    by_cases hj : j = i
    · subst hj
      rw [Cluster.nodes_after_self, Cluster.activity_after_self]
      exact hbrings.node
    · rw [Cluster.nodes_after_of_ne _ _ _ hj, Cluster.activity_after_of_ne _ _ _ hj]
      exact hsurvive.node j _ _ hj (hs.node j)
  request env henv := by
    rcases List.mem_append.mp henv with hold | hnew
    · exact hsurvive.request env (hs.request env hold)
    · exact hbrings.request env hnew
  reply rep hrep := by
    rcases List.mem_append.mp hrep with hold | hnew
    · exact hsurvive.reply rep (hs.reply rep hold)
    · exact hbrings.reply rep hnew
  event ev hev := by
    rcases List.mem_append.mp hev with hnew | hold
    · exact hbrings.event ev hnew
    · exact hsurvive.event ev (hs.event ev hold)

end Parts
