import RpcFramework.Raft.Locks

/-!
# What a candidate wins

`startElection` asks its peers one after the other and counts the votes; that a reply has
made the node a follower of a later term in the meantime ends neither the loop nor the
count.

## Main definitions

* `RaftNode.elect` — `startElection` as a whole.
* `RaftNode.WinsItsTerm` — whoever wins is leader of the term it asked for, by votes for it.

## Main results

* `RaftNode.voteLoop_spec` — what the loop ends with, by its replies.
* `RaftNode.winsItsTerm_iff` — **when a candidate wins only the term it asked for.**
-/

open Rpc

namespace VoteOutcome

/-- The peer granted its vote. -/
def granted : VoteOutcome → Bool
  | none => false
  | some reply => reply.1.voteGranted

/-- The term of the node after the reply. -/
def advance (term : ℤ) : VoteOutcome → ℤ
  | none => term
  | some reply => max term reply.1.term

/-- The reply, if any, does not carry a later term than this. -/
def within (term : ℤ) : VoteOutcome → Bool
  | none => true
  | some reply => reply.1.term ≤ term

end VoteOutcome

namespace RaftNode

/-- The latest of the term asked for and the terms of the first `k` replies. -/
def latestTerm (outcomes : ℕ → VoteOutcome) (term : ℤ) : ℕ → ℤ
  | 0 => term
  | k + 1 => (outcomes k).advance (latestTerm outcomes term k)

/-- The `k`-th reply grants a vote, and its term is not later than the node's by then: the
loop counts it. -/
def countsAsVote (outcomes : ℕ → VoteOutcome) (term : ℤ) (k : ℕ) : Bool :=
  (outcomes k).granted && (outcomes k).within (latestTerm outcomes term k)

/-- `startElection`, with the outcome of the call to the peer of each position. -/
def elect (n : RaftNode) (outcomes : ℕ → VoteOutcome) : RaftNode :=
  let n := n.startElection.1
  let (last, votes, _) := voteLoop outcomes 0 n.peers n 1
  last.finishElection votes

section Elect

variable {n : RaftNode} {outcomes : ℕ → VoteOutcome}

/-- A reply moves the term of the node on, and is a vote unless it does. -/
theorem sendRequestVote_spec (n : RaftNode) (outcome : VoteOutcome) :
    (n.sendRequestVote outcome).1.currentTerm = outcome.advance n.currentTerm ∧
      (n.sendRequestVote outcome).1.peers = n.peers ∧
      (n.sendRequestVote outcome).2 = (outcome.granted && outcome.within n.currentTerm) := by
  cases outcome with
  | none => exact ⟨rfl, rfl, rfl⟩
  | some reply =>
    simp only [sendRequestVote, handleVoteReply, VoteOutcome.advance, VoteOutcome.granted,
      VoteOutcome.within]
    split
    · next hlater =>
      refine ⟨(max_eq_right hlater.le).symm, rfl, ?_⟩
      rw [decide_eq_false (not_le.mpr hlater), Bool.and_false]
    · next hle =>
      refine ⟨(max_eq_left (not_lt.mp hle)).symm, rfl, ?_⟩
      rw [decide_eq_true (not_lt.mp hle), Bool.and_true]

/-- **The loop of an election** ends in the latest term it has seen, with a vote for every
reply that counts as one. -/
theorem voteLoop_spec (outcomes : ℕ → VoteOutcome) (term : ℤ) :
    ∀ (peers : List RaftPeer) (k : ℕ) (n : RaftNode) (count : ℕ),
      n.currentTerm = latestTerm outcomes term k →
      (voteLoop outcomes k peers n count).1.currentTerm =
          latestTerm outcomes term (k + peers.length) ∧
        (voteLoop outcomes k peers n count).1.peers = n.peers ∧
        (voteLoop outcomes k peers n count).2.1 =
          count + (List.range' k peers.length).countP (countsAsVote outcomes term) := by
  intro peers
  induction peers with
  | nil => exact fun k n count hterm => ⟨hterm, rfl, rfl⟩
  | cons peer peers ih =>
    intro k n count hterm
    obtain ⟨hadvance, hpeers, hgranted⟩ := n.sendRequestVote_spec (outcomes k)
    have hnext : (n.sendRequestVote (outcomes k)).1.currentTerm =
        latestTerm outcomes term (k + 1) := by
      rw [hadvance, hterm]
      rfl
    have hvote : (n.sendRequestVote (outcomes k)).2 = countsAsVote outcomes term k := by
      rw [hgranted, hterm]
      rfl
    obtain ⟨hlast, hsame, htotal⟩ := ih (k + 1) (n.sendRequestVote (outcomes k)).1
      (if (n.sendRequestVote (outcomes k)).2 then count + 1 else count) hnext
    refine ⟨?_, hsame.trans hpeers, ?_⟩
    · rw [List.length_cons, show k + (peers.length + 1) = k + 1 + peers.length by omega]
      exact hlast
    · rw [List.length_cons, List.range'_succ, List.countP_cons]
      refine htotal.trans ?_
      rw [hvote]
      cases countsAsVote outcomes term k with
      | true =>
        simp only [if_true]
        omega
      | false => simp

/-- Without a reply of a later term, the node stays in the term it asked for. -/
theorem latestTerm_eq {term : ℤ} {k : ℕ} (h : ∀ j < k, (outcomes j).within term = true) :
    latestTerm outcomes term k = term := by
  induction k with
  | zero => rfl
  | succ k ih =>
    rw [latestTerm, ih fun j hj => h j (Nat.lt_succ_of_lt hj)]
    have hk := h k (Nat.lt_succ_self k)
    cases houtcome : outcomes k with
    | none => rfl
    | some reply =>
      rw [houtcome] at hk
      exact max_eq_left (of_decide_eq_true hk)

/-- **An election as a whole** is won with a majority of the votes counted, in the latest term
seen. -/
theorem elect_spec (n : RaftNode) (outcomes : ℕ → VoteOutcome) :
    ((n.elect outcomes).role = .leader ↔ n.majority ≤
        1 + (List.range n.peers.length).countP
          (countsAsVote outcomes n.startElection.2.term)) ∧
      (n.elect outcomes).currentTerm =
        latestTerm outcomes n.startElection.2.term n.peers.length := by
  obtain ⟨hterm, hpeers, hvotes⟩ := voteLoop_spec outcomes n.startElection.2.term n.peers 0
    n.startElection.1 1 rfl
  rw [Nat.zero_add] at hterm
  rw [← List.range_eq_range'] at hvotes
  have helect : n.elect outcomes =
      (voteLoop outcomes 0 n.peers n.startElection.1 1).1.finishElection
        (voteLoop outcomes 0 n.peers n.startElection.1 1).2.1 := rfl
  have hmajority : (voteLoop outcomes 0 n.peers n.startElection.1 1).1.majority = n.majority :=
    congrArg (fun peers : List RaftPeer => (peers.length + 1) / 2 + 1) hpeers
  rw [helect, finishElection, hmajority, hvotes]
  split
  · next hwon => exact ⟨iff_of_true rfl hwon, hterm⟩
  · next hlost => exact ⟨iff_of_false (fun h => (by cases h)) hlost, hterm⟩

end Elect

/-- If `startElection` ends with the node as leader, then in the term it asked for, without a
reply of a later term, and with the votes of more than half of the nodes. -/
def WinsItsTerm (n : RaftNode) (outcomes : ℕ → VoteOutcome) : Prop :=
  (n.elect outcomes).role = .leader →
    (n.elect outcomes).currentTerm = n.startElection.2.term ∧
      (∀ k < n.peers.length, (outcomes k).within n.startElection.2.term = true) ∧
      n.peers.length + 1 <
        2 * (1 + (List.range n.peers.length).countP fun k => (outcomes k).granted)

/-- **A candidate wins only the term it asked for** exactly if no reply carries a later term,
or the votes counted nevertheless are no majority. -/
theorem winsItsTerm_iff (n : RaftNode) (outcomes : ℕ → VoteOutcome) :
    WinsItsTerm n outcomes ↔
      (∀ k < n.peers.length, (outcomes k).within n.startElection.2.term = true) ∨
        1 + (List.range n.peers.length).countP
          (countsAsVote outcomes n.startElection.2.term) < n.majority := by
  obtain ⟨hwon, hterm⟩ := n.elect_spec outcomes
  constructor
  · intro hwins
    by_cases hlost : 1 + (List.range n.peers.length).countP
        (countsAsVote outcomes n.startElection.2.term) < n.majority
    · exact .inr hlost
    · exact .inl (hwins (hwon.mpr (not_lt.mp hlost))).2.1
  · rintro (hwithin | hlost) hleader
    · have hvotes : (List.range n.peers.length).countP
            (countsAsVote outcomes n.startElection.2.term) =
          (List.range n.peers.length).countP fun k => (outcomes k).granted := by
        refine List.countP_congr fun k hk => ?_
        have hk := List.mem_range.mp hk
        have hlatest : latestTerm outcomes n.startElection.2.term k = n.startElection.2.term :=
          latestTerm_eq fun j hj => hwithin j (hj.trans hk)
        rw [countsAsVote, hlatest, hwithin k hk, Bool.and_true]
      have hmajority := hwon.mp hleader
      rw [hvotes, majority] at hmajority
      exact ⟨hterm.trans (latestTerm_eq hwithin), hwithin, by omega⟩
    · exact absurd (hwon.mp hleader) (not_le.mpr hlost)

/-- A node of a cluster of three. -/
def sampleCandidate : RaftNode :=
  .new (utf8 "A") (utf8 "localhost") 9001
    [⟨utf8 "B", utf8 "localhost", 9002⟩, ⟨utf8 "C", utf8 "localhost", 9003⟩]

/-- The first peer is in a later term; the second one grants its vote. -/
def sampleReplies : ℕ → VoteOutcome
  | 0 => some ⟨{ term := 9 }, by decide⟩
  | _ => some ⟨{ voteGranted := true }, by decide⟩

/-- The vote makes the node leader of a term that nobody was asked for. -/
theorem sampleReplies_laterTerm : ¬ WinsItsTerm sampleCandidate sampleReplies := by
  intro h
  have hterm := (h (by decide)).1
  exact absurd hterm (by decide)

end RaftNode
