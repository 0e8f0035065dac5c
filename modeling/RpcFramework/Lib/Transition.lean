import Mathlib.Data.List.Basic
import Mathlib.Tactic.Common

/-!
# Transition systems

A system takes labelled steps, each of which the label determines; where the
label is not enabled there is no step.  A run is a list of labels that are
enabled one after the other.  What one step preserves, a run preserves.

## Main definitions

* `System` — an initial state and a step function.
* `System.exec` — the state a list of labels leads to.
* `System.restrict` — the system with the steps that a guard admits.
* `System.visited` — the states a run passes through.
* `System.steps` — the steps it takes.

## Main results

* `System.exec_invariant` — **the invariant rule.**
* `System.exec_append` — runs compose.
* `System.exec_restrict` — a run of a restricted system is a run of the system.
* `System.exec_restrict_iff_of_invariant`, `System.exec_restrict_iff_of_absorbing` — **the
  runs an exact guard admits.**
* `System.forall_steps_iff` — the same, for what is said of single steps.
* `System.exec_simulates` — **a simulation**: what is seen of a run is a run.
-/

/-- A deterministic labelled transition system. -/
structure System (σ α : Type*) where
  init : σ
  step : σ → α → Option σ

namespace System

variable {σ α : Type*} (S : System σ α)

/-- The state `s` is led to by the labels `as`, one after the other. -/
def exec (s : σ) (as : List α) : Option σ := as.foldlM S.step s

@[simp] theorem exec_nil (s : σ) : S.exec s [] = some s := rfl

theorem exec_cons (s : σ) (a : α) (as : List α) :
    S.exec s (a :: as) = (S.step s a).bind fun t => S.exec t as := rfl

/-- Runs compose. -/
theorem exec_append (s : σ) (as bs : List α) :
    S.exec s (as ++ bs) = (S.exec s as).bind fun t => S.exec t bs := by
  simp only [exec, List.foldlM_append, Option.bind_eq_bind]

theorem exec_cons_eq_some {s t : σ} {a : α} {as : List α} (h : S.exec s (a :: as) = some t) :
    ∃ u, S.step s a = some u ∧ S.exec u as = some t := by
  rw [exec_cons, Option.bind_eq_some_iff] at h
  exact h

/-- A run whose end passes a test. -/
theorem exists_exec_of_any (s : σ) (as : List α) (test : σ → Bool)
    (h : (S.exec s as).any test = true) : ∃ t, S.exec s as = some t ∧ test t = true := by
  cases hexec : S.exec s as with
  | none =>
    rw [hexec] at h
    exact absurd h (by simp)
  | some t =>
    rw [hexec] at h
    exact ⟨t, rfl, h⟩

variable {S}

/-- **The invariant rule**: what every step preserves holds at the end of a run
if it holds at its start. -/
theorem exec_invariant {I : σ → Prop} (hstep : ∀ s a t, I s → S.step s a = some t → I t) :
    ∀ {as : List α} {s t : σ}, I s → S.exec s as = some t → I t := by
  intro as
  induction as with
  | nil =>
    intro s t hs h
    rw [exec_nil, Option.some.injEq] at h
    exact h ▸ hs
  | cons a as ih =>
    intro s t hs h
    obtain ⟨u, hu, hrest⟩ := S.exec_cons_eq_some h
    exact ih (hstep s a u hs hu) hrest

/-- The invariant rule from the initial state. -/
theorem reachable_invariant {I : σ → Prop} (hinit : I S.init)
    (hstep : ∀ s a t, I s → S.step s a = some t → I t) {as : List α} {s : σ}
    (h : S.exec S.init as = some s) : I s :=
  exec_invariant hstep hinit h

/-- A relation that every step respects, given an invariant, relates the two ends
of a run. -/
theorem exec_relation {I : σ → Prop} {R : σ → σ → Prop} (hrefl : ∀ s, R s s)
    (htrans : ∀ s t u, R s t → R t u → R s u)
    (hinv : ∀ s a t, I s → S.step s a = some t → I t)
    (hstep : ∀ s a t, I s → S.step s a = some t → R s t) :
    ∀ {as : List α} {s t : σ}, I s → S.exec s as = some t → R s t := by
  intro as
  induction as with
  | nil =>
    intro s t _ h
    rw [exec_nil, Option.some.injEq] at h
    exact h ▸ hrefl s
  | cons a as ih =>
    intro s t hs h
    obtain ⟨u, hu, hrest⟩ := S.exec_cons_eq_some h
    exact htrans s u t (hstep s a u hs hu) (ih (hinv s a u hs hu) hrest)

/-! ### Restriction -/

/-- The system whose steps are those the guard admits, judged by the state before
the step. -/
def restrict (S : System σ α) (guard : σ → α → Prop) [∀ s a, Decidable (guard s a)] :
    System σ α where
  init := S.init
  step s a := if guard s a then S.step s a else none

section Restrict

variable {guard : σ → α → Prop} [∀ s a, Decidable (guard s a)]

@[simp] theorem init_restrict : (S.restrict guard).init = S.init := rfl

theorem step_restrict {s t : σ} {a : α} :
    (S.restrict guard).step s a = some t ↔ guard s a ∧ S.step s a = some t := by
  simp only [restrict, Option.ite_none_right_eq_some]

/-- A run of the restricted system is a run of the system. -/
theorem exec_restrict {as : List α} {s t : σ} (h : (S.restrict guard).exec s as = some t) :
    S.exec s as = some t := by
  induction as generalizing s with
  | nil => exact h
  | cons a as ih =>
    obtain ⟨u, hu, hrest⟩ := exec_cons_eq_some _ h
    rw [exec_cons, (step_restrict.mp hu).2, Option.bind_some]
    exact ih hrest

/-- A run that a guard admits is admitted by every weaker guard. -/
theorem exec_restrict_mono {guard' : σ → α → Prop} [∀ s a, Decidable (guard' s a)]
    (hle : ∀ s a, guard s a → guard' s a) {as : List α} {s t : σ}
    (h : (S.restrict guard).exec s as = some t) : (S.restrict guard').exec s as = some t := by
  induction as generalizing s with
  | nil => exact h
  | cons a as ih =>
    obtain ⟨u, hu, hrest⟩ := exec_cons_eq_some _ h
    obtain ⟨hguard, hstep⟩ := step_restrict.mp hu
    rw [exec_cons, step_restrict.mpr ⟨hle s a hguard, hstep⟩, Option.bind_some]
    exact ih hrest

/-- A guard that admits everything changes nothing. -/
theorem exec_restrict_of_forall (hguard : ∀ s a, guard s a) :
    ∀ {as : List α} {s : σ}, (S.restrict guard).exec s as = S.exec s as := by
  intro as
  induction as with
  | nil =>
    intro s
    rfl
  | cons a as ih =>
    intro s
    rw [exec_cons, exec_cons]
    simp only [restrict, if_pos (hguard s a)]
    exact congrArg _ (funext fun t => ih)

end Restrict

/-! ### The states of a run -/

/-- The states the run of `as` from `s` passes through, both ends included. -/
def visited (S : System σ α) (s : σ) : List α → List σ
  | [] => [s]
  | a :: as => s :: ((S.step s a).elim [] fun t => S.visited t as)

theorem mem_visited_self (s : σ) (as : List α) : s ∈ S.visited s as := by
  cases as <;> simp [visited]

theorem mem_visited_of_exec {s t : σ} {as : List α} (h : S.exec s as = some t) :
    t ∈ S.visited s as := by
  induction as generalizing s with
  | nil =>
    obtain rfl := Option.some.inj h
    exact mem_visited_self s []
  | cons a as ih =>
    obtain ⟨u, hu, hrest⟩ := S.exec_cons_eq_some h
    rw [visited, hu, Option.elim_some]
    exact List.mem_cons_of_mem s (ih hrest)

/-- A state visited divides the run. -/
theorem exists_of_mem_visited {s t u : σ} {as : List α} (h : S.exec s as = some t)
    (hu : u ∈ S.visited s as) :
    ∃ bs cs, as = bs ++ cs ∧ S.exec s bs = some u ∧ S.exec u cs = some t := by
  induction as generalizing s with
  | nil =>
    obtain rfl := List.mem_singleton.mp hu
    exact ⟨[], [], rfl, rfl, h⟩
  | cons a as ih =>
    obtain ⟨v, hv, hrest⟩ := S.exec_cons_eq_some h
    rw [visited, hv, Option.elim_some] at hu
    rcases List.mem_cons.mp hu with rfl | hmem
    · exact ⟨[], a :: as, rfl, rfl, h⟩
    · obtain ⟨bs, cs, rfl, hbs, hcs⟩ := ih hrest hmem
      refine ⟨a :: bs, cs, rfl, ?_, hcs⟩
      rw [exec_cons, hv, Option.bind_some]
      exact hbs

/-- **The exact guard**: if from good states the guard admits just the steps to good states,
then it admits just the runs that pass through good states alone.  Whatever else always
holds may be used. -/
theorem exec_restrict_iff_of_invariant {guard : σ → α → Prop} [∀ s a, Decidable (guard s a)]
    {I good : σ → Prop} (hinv : ∀ s a t, I s → S.step s a = some t → I t)
    (hstep : ∀ s a t, I s → good s → S.step s a = some t → (guard s a ↔ good t))
    {as : List α} {s t : σ} (hI : I s) (hs : good s) (h : S.exec s as = some t) :
    (∀ u ∈ S.visited s as, good u) ↔ (S.restrict guard).exec s as = some t := by
  induction as generalizing s with
  | nil => simpa [visited, exec] using iff_of_true hs (Option.some.inj h)
  | cons a as ih =>
    obtain ⟨u, hu, hrest⟩ := S.exec_cons_eq_some h
    have hIu := hinv s a u hI hu
    rw [visited, hu, Option.elim_some, List.forall_mem_cons, and_iff_right hs]
    constructor
    · intro hall
      have hgood := hall u (mem_visited_self u as)
      rw [exec_cons, step_restrict.mpr ⟨(hstep s a u hI hs hu).mpr hgood, hu⟩, Option.bind_some]
      exact (ih hIu hgood hrest).mp hall
    · intro hexec
      obtain ⟨v, hv, hrest'⟩ := exec_cons_eq_some _ hexec
      obtain ⟨hguard, hsame⟩ := step_restrict.mp hv
      obtain rfl : u = v := Option.some.inj (hu.symm.trans hsame)
      exact (ih hIu ((hstep s a u hI hs hu).mp hguard) hrest).mpr hrest'

theorem exec_restrict_iff {guard : σ → α → Prop} [∀ s a, Decidable (guard s a)]
    {good : σ → Prop}
    (hstep : ∀ s a t, good s → S.step s a = some t → (guard s a ↔ good t)) {as : List α}
    {s t : σ} (hs : good s) (h : S.exec s as = some t) :
    (∀ u ∈ S.visited s as, good u) ↔ (S.restrict guard).exec s as = some t :=
  exec_restrict_iff_of_invariant (I := fun _ => True) (fun _ _ _ _ _ => trivial)
    (fun s a t _ => hstep s a t) trivial hs h

/-- **The exact guard, judged by the end**: if moreover no step leads back to a good state,
the guard admits just the runs that end in one. -/
theorem exec_restrict_iff_of_absorbing {guard : σ → α → Prop} [∀ s a, Decidable (guard s a)]
    {I good : σ → Prop} (hinv : ∀ s a t, I s → S.step s a = some t → I t)
    (hstep : ∀ s a t, I s → good s → S.step s a = some t → (guard s a ↔ good t))
    (hback : ∀ s a t, I s → S.step s a = some t → good t → good s) {as : List α} {s t : σ}
    (hI : I s) (hs : good s) (h : S.exec s as = some t) :
    good t ↔ (S.restrict guard).exec s as = some t := by
  constructor
  · intro ht
    refine (exec_restrict_iff_of_invariant hinv hstep hI hs h).mp ?_
    intro u hu
    obtain ⟨bs, cs, -, hbs, hcs⟩ := exists_of_mem_visited h hu
    by_contra hbad
    have hend : I t ∧ ¬ good t := by
      refine exec_invariant (I := fun v => I v ∧ ¬ good v) ?_
        ⟨exec_invariant hinv hI hbs, hbad⟩ hcs
      intro v a w hv hvw
      exact ⟨hinv v a w hv.1 hvw, fun hw => hv.2 (hback v a w hv.1 hvw hw)⟩
    exact hend.2 ht
  · intro hexec
    have hend : I t ∧ good t := by
      refine exec_invariant (I := fun v => I v ∧ good v) ?_ ⟨hI, hs⟩ hexec
      intro v a w hv hvw
      obtain ⟨hguard, hvw⟩ := step_restrict.mp hvw
      exact ⟨hinv v a w hv.1 hvw, (hstep v a w hv.1 hv.2 hvw).mp hguard⟩
    exact hend.2

/-- A run of a restricted system passes through the same states. -/
theorem visited_restrict {guard : σ → α → Prop} [∀ s a, Decidable (guard s a)] {s t : σ}
    {as : List α} (h : (S.restrict guard).exec s as = some t) :
    (S.restrict guard).visited s as = S.visited s as := by
  induction as generalizing s with
  | nil => rfl
  | cons a as ih =>
    obtain ⟨u, hu, hrest⟩ := exec_cons_eq_some _ h
    simp only [visited, hu, (step_restrict.mp hu).2, Option.elim_some, ih hrest]

/-! ### The steps of a run -/

/-- The steps of the run of `as` from `s`: the state before, the label, the state after. -/
def steps (S : System σ α) (s : σ) : List α → List (σ × α × σ)
  | [] => []
  | a :: as => (S.step s a).elim [] fun t => (s, a, t) :: S.steps t as

/-- **The exact guard, for single steps**: if the guard admits just the steps of which
something holds, then it admits just the runs all of whose steps it holds of. -/
theorem forall_steps_iff {guard : σ → α → Prop} [∀ s a, Decidable (guard s a)] {I : σ → Prop}
    {P : σ → α → σ → Prop} (hinv : ∀ s a t, I s → S.step s a = some t → I t)
    (hstep : ∀ s a t, I s → S.step s a = some t → (P s a t ↔ guard s a)) {as : List α} {s t : σ}
    (hI : I s) (h : S.exec s as = some t) :
    (∀ p ∈ S.steps s as, P p.1 p.2.1 p.2.2) ↔ (S.restrict guard).exec s as = some t := by
  induction as generalizing s with
  | nil => exact iff_of_true (fun _ hp => absurd hp List.not_mem_nil) h
  | cons a as ih =>
    obtain ⟨u, hu, hrest⟩ := S.exec_cons_eq_some h
    rw [steps, hu, Option.elim_some, List.forall_mem_cons, hstep s a u hI hu,
      ih (hinv s a u hI hu) hrest]
    constructor
    · rintro ⟨hguard, hexec⟩
      rw [exec_cons, step_restrict.mpr ⟨hguard, hu⟩, Option.bind_some]
      exact hexec
    · intro hexec
      obtain ⟨v, hv, hrest'⟩ := exec_cons_eq_some _ hexec
      obtain ⟨hguard, hsame⟩ := step_restrict.mp hv
      obtain rfl : u = v := Option.some.inj (hu.symm.trans hsame)
      exact ⟨hguard, hrest'⟩

/-! ### Simulation -/

/-- **A simulation**: if what is seen of a step is a step of the other system, or nothing, then
what is seen of a run is a run of it. -/
theorem exec_simulates {τ β : Type*} (T : System τ β) (view : σ → τ) (I : σ → Prop)
    (hinit : I S.init) (hview : view S.init = T.init)
    (hinv : ∀ s a t, I s → S.step s a = some t → I t)
    (hstep : ∀ s a t, I s → S.step s a = some t →
      view t = view s ∨ ∃ b, T.step (view s) b = some (view t)) {as : List α} {t : σ}
    (h : S.exec S.init as = some t) : ∃ bs, T.exec T.init bs = some (view t) := by
  have hboth : I t ∧ ∃ bs, T.exec T.init bs = some (view t) := by
    refine reachable_invariant (I := fun s => I s ∧ ∃ bs, T.exec T.init bs = some (view s))
      ⟨hinit, [], by rw [exec_nil, hview]⟩ ?_ h
    rintro s a u ⟨hs, bs, hbs⟩ hu
    refine ⟨hinv s a u hs hu, ?_⟩
    rcases hstep s a u hs hu with hsame | ⟨b, hb⟩
    · exact ⟨bs, hsame ▸ hbs⟩
    · refine ⟨bs ++ [b], ?_⟩
      rw [exec_append, hbs, Option.bind_some, exec_cons, hb, Option.bind_some, exec_nil]
  exact hboth.2

end System
