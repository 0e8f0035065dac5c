import Mathlib.Logic.Relation

/-!
# Waiting for one another

A relation says who waits for whom.  When the waiting goes round in a circle, nobody in the
circle goes on.

## Main definitions

* `WaitCycle` — somebody waits, through others or not, for itself.

## Main results

* `waitCycle_of_le` — fewer who wait, fewer circles.
* `waitCycle_insert_iff` — **one more who waits closes a circle just if who it waits for
  waits for it.**
-/

open Relation

variable {α : Type*} {R R' : α → α → Prop}

/-- The waiting goes round in a circle. -/
def WaitCycle (R : α → α → Prop) : Prop := ∃ a, TransGen R a a

theorem waitCycle_of_le (hle : ∀ a b, R' a b → R a b) (h : WaitCycle R') : WaitCycle R := by
  obtain ⟨a, ha⟩ := h
  exact ⟨a, ha.lift id hle⟩

/-- A way through the larger relation takes the new edge or does without it. -/
theorem transGen_insert {i j : α} (hR' : ∀ a b, R' a b → R a b ∨ a = i ∧ b = j) {a b : α}
    (h : TransGen R' a b) : TransGen R a b ∨ ReflTransGen R a i ∧ ReflTransGen R j b := by
  induction h with
  | single hab =>
    rcases hR' _ _ hab with hold | ⟨rfl, rfl⟩
    · exact Or.inl (.single hold)
    · exact Or.inr ⟨.refl, .refl⟩
  | tail _ hbc ih =>
    rcases hR' _ _ hbc with hold | ⟨rfl, rfl⟩
    · rcases ih with hac | ⟨hai, hjb⟩
      · exact Or.inl (hac.tail hold)
      · exact Or.inr ⟨hai, hjb.tail hold⟩
    · rcases ih with hac | ⟨hai, -⟩
      · exact Or.inr ⟨hac.to_reflTransGen, .refl⟩
      · exact Or.inr ⟨hai, .refl⟩

/-- **One more who waits** closes a circle just if who it waits for waits for it. -/
theorem waitCycle_insert_iff {i j : α} (hR' : ∀ a b, R' a b ↔ R a b ∨ a = i ∧ b = j)
    (hfree : ¬ WaitCycle R) : WaitCycle R' ↔ ReflTransGen R j i := by
  constructor
  · rintro ⟨a, ha⟩
    rcases transGen_insert (fun a b => (hR' a b).mp) ha with hold | ⟨hai, hja⟩
    · exact absurd ⟨a, hold⟩ hfree
    · exact hja.trans hai
  · intro hji
    have hnew : R' i j := (hR' i j).mpr (Or.inr ⟨rfl, rfl⟩)
    exact ⟨i, .head' hnew (hji.lift id fun a b hab => (hR' a b).mpr (Or.inl hab))⟩
