import RpcFramework.Registry.StateMachine
import Mathlib.Tactic.Tauto

/-!
# Replicas of the registry

Two replicas that have applied the same log need not hold the same instances, since
each sweeps by its own clock and no sweep is a log entry.  What decides is whether an
instance that the log leaves registered has *lapsed* in a replica's schedule: whether a
sweep there found it without a heartbeat for too long, and no registration followed.

## Main definitions

* `appliedLog` — the entries a replica has applied.
* `InstanceKey.Registered`, `InstanceKey.Lapsed` — what the log, and what the schedule,
  says of an instance.
* `Agree` — two replicas return the same addresses for every service.

## Main results

* `InstanceKey.run_eq_some_iff` — an instance is held while registered and not lapsed.
* `agree_iff` — **replicas of one log agree exactly where their schedules let the same
  instances lapse.**
-/

open Rpc

/-- The entries a replica has applied, in order. -/
def appliedLog (schedule : List LocalEvent) : List LogEntry :=
  schedule.filterMap fun event =>
    match event with
    | .apply entry _ => some entry
    | .sweep _ => none

/-- Where a list that ends in `a` is divided, either behind everything before `a`, or within. -/
theorem snoc_eq_append_cons {α : Type*} {l pre post : List α} {a b : α} :
    l ++ [a] = pre ++ b :: post ↔
      (post = [] ∧ l = pre ∧ a = b) ∨ ∃ post', post = post' ++ [a] ∧ l = pre ++ b :: post' := by
  constructor
  · intro h
    rcases List.eq_nil_or_concat post with rfl | ⟨post', last, rfl⟩
    · obtain ⟨rfl, hlast⟩ := List.append_inj' h rfl
      exact Or.inl ⟨rfl, rfl, (List.cons.inj hlast).1⟩
    · rw [List.concat_eq_append, ← List.cons_append, ← List.append_assoc] at h
      obtain ⟨rfl, hlast⟩ := List.append_inj' h rfl
      rw [(List.cons.inj hlast).1, List.concat_eq_append]
      exact Or.inr ⟨post', rfl, rfl⟩
  · rintro (⟨rfl, rfl, rfl⟩ | ⟨post', rfl, rfl⟩)
    · rfl
    · simp

namespace InstanceKey

variable (x : InstanceKey)

/-- The log leaves the instance registered: a registration is in it and no
unregistration behind that. -/
def Registered (log : List LogEntry) : Prop :=
  ∃ pre entry post, log = pre ++ entry :: post ∧ x.effect entry = some .register ∧
    ∀ e ∈ post, x.effect e ≠ some .unregister

/-- The event registers the instance. -/
def Registers : LocalEvent → Prop
  | .apply entry _ => x.effect entry = some .register
  | .sweep _ => False

/-- The time of the last registration or heartbeat of the instance, each event
changing it in turn. -/
def refresh (last : Option ℤ) : LocalEvent → Option ℤ
  | .apply entry now =>
      if x.effect entry = some .register ∨ x.effect entry = some .heartbeat then some now else last
  | .sweep _ => last

/-- The time of the last registration or heartbeat of the instance in a schedule. -/
def lastRefresh (schedule : List LocalEvent) : Option ℤ := schedule.foldl x.refresh none

/-- A sweep came more than the timeout after the last registration or heartbeat before
it, and no registration came after it. -/
def Lapsed (schedule : List LocalEvent) : Prop :=
  ∃ pre now post, schedule = pre ++ .sweep now :: post ∧
    (∃ t, x.lastRefresh pre = some t ∧ heartbeatTimeout < now - t) ∧
    ∀ event ∈ post, ¬ x.Registers event

/-! ### One event more -/

section Snoc

variable {x} {schedule : List LocalEvent} {log : List LogEntry}

theorem lastRefresh_append (event : LocalEvent) :
    x.lastRefresh (schedule ++ [event]) = x.refresh (x.lastRefresh schedule) event := by
  simp [lastRefresh, List.foldl_append]

theorem appliedLog_append_sweep (now : ℤ) :
    appliedLog (schedule ++ [.sweep now]) = appliedLog schedule := by
  simp [appliedLog, List.filterMap_append]

theorem appliedLog_append_apply (entry : LogEntry) (now : ℤ) :
    appliedLog (schedule ++ [.apply entry now]) = appliedLog schedule ++ [entry] := by
  simp [appliedLog, List.filterMap_append]

theorem registered_append (entry : LogEntry) :
    x.Registered (log ++ [entry]) ↔
      x.effect entry = some .register ∨
        x.effect entry ≠ some .unregister ∧ x.Registered log := by
  constructor
  · rintro ⟨pre, e, post, hlog, hreg, hpost⟩
    rcases snoc_eq_append_cons.mp hlog with ⟨-, -, rfl⟩ | ⟨post', rfl, rfl⟩
    · exact Or.inl hreg
    · refine Or.inr ⟨hpost _ (by simp), pre, e, post', rfl, hreg, fun e' he' => ?_⟩
      exact hpost e' (List.mem_append_left _ he')
  · rintro (hreg | ⟨hun, pre, e, post, rfl, hreg, hpost⟩)
    · exact ⟨log, entry, [], rfl, hreg, fun e he => absurd he List.not_mem_nil⟩
    · refine ⟨pre, e, post ++ [entry], by simp, hreg, fun e' he' => ?_⟩
      rcases List.mem_append.mp he' with he' | he'
      · exact hpost e' he'
      · rw [List.mem_singleton.mp he']
        exact hun

theorem lapsed_append_sweep (now : ℤ) :
    x.Lapsed (schedule ++ [.sweep now]) ↔
      x.Lapsed schedule ∨ ∃ t, x.lastRefresh schedule = some t ∧ heartbeatTimeout < now - t := by
  constructor
  · rintro ⟨pre, at', post, hsched, hlate, hpost⟩
    rcases snoc_eq_append_cons.mp hsched with ⟨-, rfl, hlast⟩ | ⟨post', rfl, rfl⟩
    · obtain rfl := LocalEvent.sweep.inj hlast
      exact Or.inr hlate
    · exact Or.inl ⟨pre, at', post', rfl, hlate, fun e he => hpost e (List.mem_append_left _ he)⟩
  · rintro (⟨pre, at', post, rfl, hlate, hpost⟩ | hlate)
    · refine ⟨pre, at', post ++ [.sweep now], by simp, hlate, fun e he => ?_⟩
      rcases List.mem_append.mp he with he | he
      · exact hpost e he
      · rw [List.mem_singleton.mp he]
        exact id
    · exact ⟨schedule, now, [], rfl, hlate, fun e he => absurd he List.not_mem_nil⟩

theorem lapsed_append_apply (entry : LogEntry) (now : ℤ) :
    x.Lapsed (schedule ++ [.apply entry now]) ↔
      x.effect entry ≠ some .register ∧ x.Lapsed schedule := by
  constructor
  · rintro ⟨pre, at', post, hsched, hlate, hpost⟩
    rcases snoc_eq_append_cons.mp hsched with ⟨-, -, hlast⟩ | ⟨post', rfl, rfl⟩
    · simp at hlast
    · exact ⟨hpost (.apply entry now) (by simp), pre, at', post', rfl, hlate,
        fun e he => hpost e (List.mem_append_left _ he)⟩
  · rintro ⟨hreg, pre, at', post, rfl, hlate, hpost⟩
    refine ⟨pre, at', post ++ [.apply entry now], by simp, hlate, fun e he => ?_⟩
    rcases List.mem_append.mp he with he | he
    · exact hpost e he
    · rw [List.mem_singleton.mp he]
      exact hreg

end Snoc

/-! ### Which instances are held -/

/-- What the model of an instance holds, in terms of the log and the schedule; beside
it, that a registered instance has been refreshed. -/
def Tracks (schedule : List LocalEvent) : Prop :=
  (∀ t, schedule.foldl x.step none = some t ↔
    x.Registered (appliedLog schedule) ∧ ¬ x.Lapsed schedule ∧ x.lastRefresh schedule = some t) ∧
  (x.Registered (appliedLog schedule) → (x.lastRefresh schedule).isSome)

theorem tracks_nil : x.Tracks [] := by
  have hreg : ¬ x.Registered (appliedLog []) := by
    rintro ⟨pre, entry, post, h, -⟩
    simp [appliedLog] at h
  exact ⟨fun t => ⟨fun h => by simp at h, fun h => absurd h.1 hreg⟩, fun h => absurd h hreg⟩

variable {x}

theorem Tracks.sweep {schedule : List LocalEvent} (h : x.Tracks schedule) (now : ℤ) :
    x.Tracks (schedule ++ [.sweep now]) := by
  obtain ⟨hheld, hrefreshed⟩ := h
  refine ⟨fun t => ?_, ?_⟩
  · rw [List.foldl_append, List.foldl_cons, List.foldl_nil, step, appliedLog_append_sweep,
      lapsed_append_sweep, lastRefresh_append, refresh, Option.filter_eq_some_iff, hheld]
    constructor
    · rintro ⟨⟨hreg, hlapsed, ht⟩, hfresh⟩
      refine ⟨hreg, ?_, ht⟩
      rintro (hl | ⟨t', ht', hlate⟩)
      · exact hlapsed hl
      · rw [ht, Option.some.injEq] at ht'
        subst ht'
        simp only [decide_eq_true_eq] at hfresh
        omega
    · rintro ⟨hreg, hlapsed, ht⟩
      refine ⟨⟨hreg, fun hl => hlapsed (Or.inl hl), ht⟩, ?_⟩
      by_contra hlate
      simp only [decide_eq_true_eq] at hlate
      exact hlapsed (Or.inr ⟨t, ht, by omega⟩)
  · rw [appliedLog_append_sweep, lastRefresh_append, refresh]
    exact hrefreshed

theorem Tracks.apply {schedule : List LocalEvent} (h : x.Tracks schedule) (entry : LogEntry)
    (now : ℤ) : x.Tracks (schedule ++ [.apply entry now]) := by
  obtain ⟨hheld, hrefreshed⟩ := h
  have hstep : (schedule ++ [LocalEvent.apply entry now]).foldl x.step none =
      x.step (schedule.foldl x.step none) (.apply entry now) := by
    rw [List.foldl_append, List.foldl_cons, List.foldl_nil]
  simp only [Tracks, hstep, step, appliedLog_append_apply, registered_append,
    lapsed_append_apply, lastRefresh_append, refresh]
  cases heff : x.effect entry with
  | none => simpa using ⟨hheld, hrefreshed⟩
  | some op =>
    cases op with
    | register => simp
    | unregister => simp
    | heartbeat =>
      simp only [Option.map_eq_some_iff, hheld]
      refine ⟨fun t => ?_, fun _ => by simp⟩
      constructor
      · rintro ⟨t', ⟨hreg, hlapsed, -⟩, rfl⟩
        simpa using ⟨hreg, hlapsed⟩
      · intro h
        have h' : x.Registered (appliedLog schedule) ∧ ¬ x.Lapsed schedule ∧ now = t := by
          simpa using h
        obtain ⟨hreg, hlapsed, rfl⟩ := h'
        obtain ⟨t', ht'⟩ := Option.isSome_iff_exists.mp (hrefreshed hreg)
        exact ⟨t', ⟨hreg, hlapsed, ht'⟩, rfl⟩

theorem tracks (schedule : List LocalEvent) : x.Tracks schedule := by
  induction schedule using List.reverseRecOn with
  | nil => exact tracks_nil x
  | append_singleton schedule event ih =>
    cases event with
    | apply entry now => exact ih.apply entry now
    | sweep now => exact ih.sweep now

/-- **An instance is held while the log leaves it registered and it has not lapsed.** -/
theorem isSome_lastHeartbeat_run (schedule : List LocalEvent) :
    ((RegistryStateMachine.run schedule).lastHeartbeat x).isSome ↔
      x.Registered (appliedLog schedule) ∧ ¬ x.Lapsed schedule := by
  obtain ⟨hheld, hrefreshed⟩ := tracks (x := x) schedule
  rw [RegistryStateMachine.lastHeartbeat_run, Option.isSome_iff_exists]
  constructor
  · rintro ⟨t, ht⟩
    obtain ⟨hreg, hlapsed, -⟩ := (hheld t).mp ht
    exact ⟨hreg, hlapsed⟩
  · rintro ⟨hreg, hlapsed⟩
    obtain ⟨t, ht⟩ := Option.isSome_iff_exists.mp (hrefreshed hreg)
    exact ⟨t, (hheld t).mpr ⟨hreg, hlapsed, ht⟩⟩

end InstanceKey

/-! ### Agreement of replicas -/

namespace RegistryStateMachine

/-- The machines return the same addresses for every service. -/
def Agree (m₁ m₂ : RegistryStateMachine) : Prop :=
  ∀ (serviceName : Bytes) (address : Bytes × ℤ),
    address ∈ (m₁.getServiceInstances serviceName).map (fun i => (i.host, i.port)) ↔
      address ∈ (m₂.getServiceInstances serviceName).map fun i => (i.host, i.port)

/-- **Replicas of one log agree exactly where their schedules let the same instances
lapse**, among those the log leaves registered. -/
theorem agree_iff {schedule₁ schedule₂ : List LocalEvent}
    (hlog : appliedLog schedule₁ = appliedLog schedule₂) :
    Agree (run schedule₁) (run schedule₂) ↔
      ∀ x : InstanceKey, x.Registered (appliedLog schedule₁) →
        (x.Lapsed schedule₁ ↔ x.Lapsed schedule₂) := by
  have hheld : Agree (run schedule₁) (run schedule₂) ↔
      ∀ x : InstanceKey, ((run schedule₁).lastHeartbeat x).isSome ↔
        ((run schedule₂).lastHeartbeat x).isSome := by
    simp only [← mem_getServiceInstances]
    exact ⟨fun h x => h x.serviceName (x.host, x.port),
      fun h name address => h ⟨name, address.1, address.2⟩⟩
  rw [hheld]
  refine forall_congr' fun x => ?_
  rw [InstanceKey.isSome_lastHeartbeat_run, InstanceKey.isSome_lastHeartbeat_run, ← hlog]
  tauto

/-- The registration of an instance of service `s`. -/
def sampleEntry : LogEntry where
  term := 1
  index := 1
  operation := utf8 "service_operation"
  data := ServiceOperation.codec.encode
    { operationType := utf8 "register", serviceName := utf8 "s", host := utf8 "h", port := 80 }

/-- Sweeps that come before the timeout make no difference. -/
theorem agree_sample :
    Agree (run [.apply sampleEntry 0]) (run [.apply sampleEntry 5, .sweep 6]) := by
  have hlog : appliedLog [.apply sampleEntry 0] = appliedLog [.apply sampleEntry 5, .sweep 6] := rfl
  refine (agree_iff hlog).mpr fun x _ => ?_
  have h₁ : ¬ x.Lapsed [.apply sampleEntry 0] := by
    rintro ⟨pre, now, post, h, -⟩
    have hmem : LocalEvent.sweep now ∈ [LocalEvent.apply sampleEntry 0] := by
      rw [h]
      simp
    simp at hmem
  have h₂ : ¬ x.Lapsed ([.apply sampleEntry 5] ++ [.sweep 6]) := by
    rw [InstanceKey.lapsed_append_sweep]
    rintro (⟨pre, now, post, h, -⟩ | ⟨t, ht, hlate⟩)
    · have hmem : LocalEvent.sweep now ∈ [LocalEvent.apply sampleEntry 5] := by
        rw [h]
        simp
      simp at hmem
    · simp only [InstanceKey.lastRefresh, List.foldl_cons, List.foldl_nil, InstanceKey.refresh,
        Option.ite_none_right_eq_some, Option.some.injEq] at ht
      obtain ⟨-, rfl⟩ := ht
      simp [heartbeatTimeout] at hlate
  exact iff_of_false h₁ h₂

/-- One replica sweeps 31 seconds after the registration, the other does not. -/
theorem sample_disagree :
    ¬ ∀ schedule₁ schedule₂ : List LocalEvent, appliedLog schedule₁ = appliedLog schedule₂ →
      Agree (run schedule₁) (run schedule₂) := by
  intro h
  have hagree := h [.apply sampleEntry 0, .sweep (31 * 10 ^ 9)] [.apply sampleEntry 0] rfl
    (utf8 "s") (utf8 "h", 80)
  revert hagree
  decide

end RegistryStateMachine
