import Mathlib.Data.List.Basic
import Mathlib.Tactic.Common

/-!
# Traces of lock operations

What a thread does to plain, non-recursive mutexes, in order.  A thread that locks a mutex
it holds waits for itself; everything before that point is what it really does.

## Main definitions

* `LockOp` — locking or unlocking one of the mutexes.
* `heldAfter`, `RelockFree` — the mutexes held, and a trace that never locks one of them.
* `guarded` — a trace inside a lock guard.
* `LockBalanced` — a trace that gives back what it takes.

## Main results

* `LockBalanced.relockFree_append_iff`, `LockBalanced.relockFree_guarded_iff` — traces in parts.
-/

/-- An operation on one of the mutexes `M`. -/
inductive LockOp (M : Type*) where
  | lock (m : M)
  | unlock (m : M)
  deriving DecidableEq, Repr

section

variable {M : Type*} [DecidableEq M]

/-- The mutexes held after a trace. -/
def heldAfter (held : List M) : List (LockOp M) → List M
  | [] => held
  | .lock m :: ops => heldAfter (m :: held) ops
  | .unlock m :: ops => heldAfter (held.erase m) ops

/-- No mutex is locked while it is held. -/
def RelockFree (held : List M) : List (LockOp M) → Prop
  | [] => True
  | .lock m :: ops => m ∉ held ∧ RelockFree (m :: held) ops
  | .unlock m :: ops => RelockFree (held.erase m) ops

instance decidableRelockFree : (held : List M) → (ops : List (LockOp M)) →
    Decidable (RelockFree held ops)
  | _, [] => inferInstanceAs (Decidable True)
  | held, .lock m :: ops =>
      have := decidableRelockFree (m :: held) ops
      inferInstanceAs (Decidable (_ ∧ _))
  | held, .unlock m :: ops => decidableRelockFree (held.erase m) ops

/-- A trace inside a lock guard. -/
def guarded (m : M) (ops : List (LockOp M)) : List (LockOp M) := .lock m :: (ops ++ [.unlock m])

/-- A trace that gives back what it takes, and nothing else. -/
def LockBalanced (ops : List (LockOp M)) : Prop := ∀ held : List M, heldAfter held ops = held

variable {held : List M} {ops ops' : List (LockOp M)} {m : M}

theorem heldAfter_append (held : List M) (ops ops' : List (LockOp M)) :
    heldAfter held (ops ++ ops') = heldAfter (heldAfter held ops) ops' := by
  induction ops generalizing held with
  | nil => rfl
  | cons op ops ih =>
    cases op with
    | lock m => exact ih (m :: held)
    | unlock m => exact ih (held.erase m)

/-- A trace in two parts. -/
theorem relockFree_append :
    RelockFree held (ops ++ ops') ↔
      RelockFree held ops ∧ RelockFree (heldAfter held ops) ops' := by
  induction ops generalizing held with
  | nil => simp [RelockFree, heldAfter]
  | cons op ops ih =>
    cases op with
    | lock m =>
      simp only [List.cons_append, RelockFree, heldAfter, ih, and_assoc]
    | unlock m =>
      simp only [List.cons_append, RelockFree, heldAfter, ih]

/-! ### Balanced traces -/

theorem balanced_nil : LockBalanced ([] : List (LockOp M)) := fun _ => rfl

theorem balanced_append (h : LockBalanced ops) (h' : LockBalanced ops') :
    LockBalanced (ops ++ ops') := by
  intro held
  rw [heldAfter_append, h, h']

theorem balanced_guarded (m : M) (h : LockBalanced ops) : LockBalanced (guarded m ops) := by
  intro held
  show heldAfter (m :: held) (ops ++ [.unlock m]) = held
  rw [heldAfter_append, h, heldAfter, List.erase_cons_head, heldAfter]

theorem balanced_ite {c : Prop} [Decidable c] (h : LockBalanced ops) (h' : LockBalanced ops') :
    LockBalanced (if c then ops else ops') := by
  split
  · exact h
  · exact h'

/-- Two parts of which the first gives back what it takes. -/
theorem LockBalanced.relockFree_append_iff (h : LockBalanced ops) :
    RelockFree held (ops ++ ops') ↔ RelockFree held ops ∧ RelockFree held ops' := by
  rw [relockFree_append, h]

/-- A lock guard locks a mutex that is free, and its scope does not lock it again. -/
theorem LockBalanced.relockFree_guarded_iff (h : LockBalanced ops) :
    RelockFree held (guarded m ops) ↔ m ∉ held ∧ RelockFree (m :: held) ops := by
  show m ∉ held ∧ RelockFree (m :: held) (ops ++ [.unlock m]) ↔ _
  rw [h.relockFree_append_iff]
  simp [RelockFree]

end
