import Mathlib.Data.Fintype.Card
import Mathlib.Logic.Function.Basic
import Mathlib.Tactic.Common

/-!
# Threads by their places

Where a number of threads run the same code, each of them is at some place in it, and what
is shared between them often is a number of threads that are at places of some kind: a
counter that all of them count up and down, or a mutex that one of them holds.

## Main definitions

* `census` — the number of threads that are at places of a kind.
* `Exclusive` — the owner of a mutex is the only thread at a place where it is held.

## Main results

* `census_update` — **what one thread's move does to a census.**
* `Exclusive.acquire`, `Exclusive.release`, `Exclusive.stay` — what it does to a mutex.
-/

variable {ι α : Type*}

/-! ### Counting -/

/-- The number of threads at a place of the kind. -/
def census [Fintype ι] (place : ι → α) (kind : α → Bool) : ℕ :=
  (Finset.univ.filter fun i => kind (place i) = true).card

section Census

variable [Fintype ι] {place place' : ι → α} {kind : α → Bool}

theorem census_congr (h : ∀ i, kind (place i) = kind (place' i)) :
    census place kind = census place' kind := by
  simp only [census, h]

theorem census_eq_zero : census place kind = 0 ↔ ∀ i, kind (place i) = false := by
  rw [census, Finset.card_eq_zero, Finset.filter_eq_empty_iff]
  simp

/-- Wider kinds have larger censuses. -/
theorem census_mono {kind' : α → Bool} (h : ∀ x, kind x = true → kind' x = true) :
    census place kind ≤ census place kind' := by
  refine Finset.card_le_card ?_
  intro i hi
  rw [Finset.mem_filter] at hi ⊢
  exact ⟨hi.1, h _ hi.2⟩

variable [DecidableEq ι]

/-- Without the thread that moves, the census is the same. -/
theorem census_eq_erase (place : ι → α) (kind : α → Bool) (i : ι) :
    census place kind =
      ((Finset.univ.erase i).filter fun j => kind (place j) = true).card +
        (kind (place i)).toNat := by
  have hsplit : (Finset.univ : Finset ι) = insert i (Finset.univ.erase i) :=
    (Finset.insert_erase (Finset.mem_univ i)).symm
  have hnot : i ∉ (Finset.univ.erase i).filter fun j => kind (place j) = true := by simp
  rw [census]
  conv_lhs => rw [hsplit, Finset.filter_insert]
  cases hkind : kind (place i) with
  | true => rw [if_pos rfl, Finset.card_insert_of_notMem hnot]; rfl
  | false => rw [if_neg (by simp)]; rfl

/-- **A census after one thread's move**: its old place no longer counts, and its new place
does. -/
theorem census_update (place : ι → α) (kind : α → Bool) (i : ι) (x : α) :
    census (Function.update place i x) kind + (kind (place i)).toNat =
      census place kind + (kind x).toNat := by
  have hrest : ((Finset.univ.erase i).filter fun j => kind (Function.update place i x j) = true) =
      (Finset.univ.erase i).filter fun j => kind (place j) = true := by
    refine Finset.filter_congr ?_
    intro j hj
    rw [Function.update_of_ne (Finset.ne_of_mem_erase hj)]
  rw [census_eq_erase _ kind i, census_eq_erase place kind i, hrest, Function.update_self]
  omega

end Census

/-! ### Mutual exclusion -/

/-- A thread is at a place where the mutex is held exactly if it is the owner. -/
def Exclusive (holds : ι → Bool) (owner : Option ι) : Prop :=
  ∀ i, holds i = true ↔ owner = some i

namespace Exclusive

variable {holds holds' : ι → Bool} {owner : Option ι} {i j : ι}

theorem owner_eq (h : Exclusive holds owner) (hi : holds i = true) : owner = some i :=
  (h i).mp hi

theorem unique (h : Exclusive holds owner) (hi : holds i = true) (hj : holds j = true) : i = j :=
  Option.some.inj ((h.owner_eq hi).symm.trans (h.owner_eq hj))

/-- A thread takes the free mutex. -/
theorem acquire (h : Exclusive holds none) (hi : holds' i = true)
    (hrest : ∀ j, j ≠ i → holds' j = holds j) : Exclusive holds' (some i) := by
  intro j
  by_cases hj : j = i
  · subst hj
    exact iff_of_true hi rfl
  · have hfree : ¬ holds' j = true := by
      rw [hrest j hj, h j]
      simp
    exact iff_of_false hfree fun heq => hj (Option.some.inj heq).symm

/-- The owner gives the mutex back. -/
theorem release (h : Exclusive holds owner) (howner : holds i = true) (hi : holds' i = false)
    (hrest : ∀ j, j ≠ i → holds' j = holds j) : Exclusive holds' none := by
  intro j
  refine iff_of_false ?_ (by simp)
  by_cases hj : j = i
  · subst hj
    simp [hi]
  · rw [hrest j hj]
    exact fun hheld => hj (h.unique hheld howner)

/-- Nobody takes it, and nobody gives it back. -/
theorem stay (h : Exclusive holds owner) (hsame : ∀ j, holds' j = holds j) :
    Exclusive holds' owner := by
  intro j
  rw [hsame j]
  exact h j

end Exclusive
