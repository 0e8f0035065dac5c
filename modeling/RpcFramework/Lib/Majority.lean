import Mathlib.Data.Finset.Card

/-!
# Majorities

Two majorities of one set share a member.  A member that votes once can therefore not be
in the majorities of two candidates.

## Main definitions

* `IsMajority` — a subset of more than half of the members.

## Main results

* `IsMajority.exists_common` — two majorities meet.
* `IsMajority.unique` — **members that vote once elect one candidate.**
-/

variable {ι κ : Type*} [DecidableEq ι]

/-- `Q` is a subset of more than half of the members. -/
def IsMajority (members Q : Finset ι) : Prop := Q ⊆ members ∧ members.card < 2 * Q.card

instance (members Q : Finset ι) : Decidable (IsMajority members Q) :=
  inferInstanceAs (Decidable (_ ∧ _))

namespace IsMajority

variable {members Q Q' : Finset ι}

/-- Two majorities meet. -/
theorem exists_common (h : IsMajority members Q) (h' : IsMajority members Q') :
    ∃ v, v ∈ Q ∧ v ∈ Q' := by
  have hcard : members.card < Q.card + Q'.card := by
    have h1 := h.2
    have h2 := h'.2
    omega
  obtain ⟨v, hv⟩ := Finset.inter_nonempty_of_card_lt_card_add_card h.1 h'.1 hcard
  exact ⟨v, Finset.mem_of_mem_inter_left hv, Finset.mem_of_mem_inter_right hv⟩

/-- **Members that vote once elect one candidate.** -/
theorem unique {vote : ι → κ → Prop} (hvote : ∀ v c c', vote v c → vote v c' → c = c')
    {c c' : κ} (h : IsMajority members Q) (hc : ∀ v ∈ Q, vote v c)
    (h' : IsMajority members Q') (hc' : ∀ v ∈ Q', vote v c') : c = c' := by
  obtain ⟨v, hv, hv'⟩ := h.exists_common h'
  exact hvote v c c' (hc v hv) (hc' v hv')

end IsMajority
