import Mathlib.Order.Bounds.Basic
import RpcFramework.Raft.Node

/-!
# The commit index of a leader

`updateCommitIndex` walks down the log from its end and stops at the first entry of the
leader's own term that a majority has.  What it passes over may have been copied more
often than what it stops at: an entry of an earlier term is never the one it stops at.
No step takes `commit_index_` below zero, where the walk would leave the log at its front.

## Main definitions

* `RaftNode.Committable` — an index that may become the commit index.

## Main results

* `RaftNode.commitLoop_spec` — what the loop ends with, wherever it begins.
* `RaftNode.updateCommitIndex_greatest` — **the commit index moves to the greatest such
  index**, and stays if there is none.
-/

open Rpc

namespace RaftNode

/-- The index lies behind the commit index, its entry is of the current term, and more
than half of the nodes have it: the leader, and the peers that acknowledged it. -/
def Committable (n : RaftNode) (index : ℕ) : Prop :=
  n.commitIndex < index ∧ 0 < index ∧ index ≤ n.log.length ∧
    (n.log[index - 1]?).map LogEntry.term = some n.currentTerm ∧
    n.peers.length + 1 < 2 * (1 + n.matchIndex.countP fun m => decide ((index : ℤ) ≤ m))

instance (n : RaftNode) (index : ℕ) : Decidable (n.Committable index) :=
  inferInstanceAs (Decidable (_ ∧ _ ∧ _ ∧ _ ∧ _))

section CommitIndex

variable {n : RaftNode} {index : ℕ}

/-- The integer formula for a majority asks for strictly more than half. -/
theorem majority_le_iff (n : RaftNode) (count : ℕ) :
    n.majority ≤ count ↔ n.peers.length + 1 < 2 * count := by
  rw [majority]
  omega

/-- What the loop tests at an index of the log. -/
theorem committable_succ_iff :
    n.Committable (index + 1) ↔
      ¬ (index + 1 : ℤ) ≤ n.commitIndex ∧
        (n.log[index]?).map LogEntry.term = some n.currentTerm ∧
        n.majority ≤ n.replicaCount (index + 1) := by
  rw [Committable, majority_le_iff, replicaCount, Nat.add_sub_cancel, Nat.add_comm 1]
  push_cast
  constructor
  · rintro ⟨hbehind, -, -, hterm, hcount⟩
    exact ⟨not_le.mpr hbehind, hterm, hcount⟩
  · rintro ⟨hbehind, hterm, hcount⟩
    obtain ⟨e, he, -⟩ := Option.map_eq_some_iff.mp hterm
    obtain ⟨hlt, -⟩ := List.getElem?_eq_some_iff.mp he
    exact ⟨not_le.mp hbehind, Nat.succ_pos index, hlt, hterm, hcount⟩

theorem Committable.majority_le (h : n.Committable index) :
    n.majority ≤ n.replicaCount index := by
  have hcount := h.2.2.2.2
  rw [majority_le_iff, replicaCount]
  omega

/-- **The loop of `updateCommitIndex`** finds the greatest committable index up to where it
begins, or none. -/
theorem commitLoop_spec (n : RaftNode) (bound : ℕ) :
    (∃ index : ℕ, IsGreatest {k | n.Committable k ∧ k ≤ bound} index ∧
        n.commitLoop bound = index) ∨
      (∀ k ≤ bound, ¬ n.Committable k) ∧ n.commitLoop bound = n.commitIndex := by
  induction bound with
  | zero =>
    refine Or.inr ⟨fun k hk hcommit => ?_, rfl⟩
    exact absurd hcommit.2.1 (not_lt.mpr hk)
  | succ bound ih =>
    by_cases hhere : n.Committable (bound + 1)
    · obtain ⟨hbehind, hterm, hmajority⟩ := committable_succ_iff.mp hhere
      refine Or.inl ⟨bound + 1, ⟨⟨hhere, le_refl _⟩, fun k hk => hk.2⟩, ?_⟩
      rw [commitLoop, if_neg hbehind, if_neg (not_not.mpr hterm), if_pos hmajority]
      push_cast
      rfl
    · -- nothing here: what is below decides
      have hbelow : ∀ k, n.Committable k ∧ k ≤ bound + 1 ↔ n.Committable k ∧ k ≤ bound := by
        refine fun k => and_congr_right fun hk => ⟨fun hle => ?_, fun hle => Nat.le_succ_of_le hle⟩
        rcases Nat.le_succ_iff.mp hle with hle | rfl
        · exact hle
        · exact absurd hk hhere
      by_cases hbehind : (bound + 1 : ℤ) ≤ n.commitIndex
      · refine Or.inr ⟨fun k hk hcommit => ?_, by rw [commitLoop, if_pos hbehind]⟩
        have hlt := hcommit.1
        omega
      · have hskip : n.commitLoop (bound + 1) = n.commitLoop bound := by
          rw [commitLoop, if_neg hbehind]
          split
          · rfl
          · next hterm =>
            refine if_neg fun hmajority => hhere ?_
            exact committable_succ_iff.mpr ⟨hbehind, not_not.mp hterm, hmajority⟩
        rw [hskip]
        rcases ih with ⟨index, hgreatest, heq⟩ | ⟨hnone, heq⟩
        · refine Or.inl ⟨index, ?_, heq⟩
          simp only [hbelow]
          exact hgreatest
        · refine Or.inr ⟨fun k hk hcommit => ?_, heq⟩
          exact hnone k ((hbelow k).mp ⟨hcommit, hk⟩).2 hcommit

/-- A leader's commit index moves to the greatest committable index, if there is one. -/
theorem updateCommitIndex_of_leader (hrole : n.role = .leader) :
    (∃ index : ℕ, IsGreatest {k | n.Committable k} index ∧
        n.updateCommitIndex = { n with commitIndex := index }) ∨
      (∀ k, ¬ n.Committable k) ∧ n.updateCommitIndex = n := by
  have hupdate : n.updateCommitIndex = { n with commitIndex := n.commitLoop n.log.length } :=
    if_pos hrole
  have hwithin : ∀ k, n.Committable k ∧ k ≤ n.log.length ↔ n.Committable k :=
    fun k => and_iff_left_of_imp fun hk => hk.2.2.1
  rcases n.commitLoop_spec n.log.length with ⟨index, hgreatest, heq⟩ | ⟨hnone, heq⟩
  · simp only [hwithin] at hgreatest
    exact Or.inl ⟨index, hgreatest, by rw [hupdate, heq]⟩
  · refine Or.inr ⟨fun k hk => hnone k hk.2.2.1 hk, ?_⟩
    rw [hupdate, heq]

theorem updateCommitIndex_of_not_leader (hrole : n.role ≠ .leader) : n.updateCommitIndex = n :=
  if_neg hrole

/-- **`updateCommitIndex` moves a leader's commit index to the greatest committable index.**
Without one, and at a node that is no leader, nothing changes. -/
theorem updateCommitIndex_greatest (n : RaftNode) :
    (n.role = .leader →
      (∃ index : ℕ, IsGreatest {k | n.Committable k} index ∧
          n.updateCommitIndex = { n with commitIndex := index }) ∨
        (∀ k, ¬ n.Committable k) ∧ n.updateCommitIndex = n) ∧
      (n.role ≠ .leader → n.updateCommitIndex = n) :=
  ⟨updateCommitIndex_of_leader, updateCommitIndex_of_not_leader⟩

end CommitIndex

end RaftNode
