import Mathlib.Data.Set.Card
import RpcFramework.Registry.Replicas

/-!
# The registry's state machine by its history

What a machine lists of a service, told from the events that led there: an instance is
listed if it was registered, not unregistered since, and not found without a heartbeat for
too long by a sweep since.

## Main definitions

* `InstanceKey.Listed` — what the history says of an instance.

## Main results

* `RegistryStateMachine.getServiceCount_eq` — the services counted are those that have
  an instance.
* `RegistryStateMachine.history_spec` — **the machine is what its history says.**
-/

open Rpc

namespace InstanceKey

variable (x : InstanceKey)

/-- There is a registration of the instance after which it was not unregistered, and after
which no sweep came more than the timeout after the last registration or heartbeat of the
instance before the sweep. -/
def Listed (schedule : List LocalEvent) : Prop :=
  ∃ pre entry now post, schedule = pre ++ .apply entry now :: post ∧
    x.effect entry = some .register ∧
    (∀ e at', .apply e at' ∈ post → x.effect e ≠ some .unregister) ∧
    ∀ mid at' rest, post = mid ++ .sweep at' :: rest →
      ∀ t, x.lastRefresh (pre ++ .apply entry now :: mid) = some t → at' - t ≤ heartbeatTimeout

variable {x} {schedule : List LocalEvent}

theorem listed_append_apply (entry : LogEntry) (now : ℤ) :
    x.Listed (schedule ++ [.apply entry now]) ↔
      x.effect entry = some .register ∨
        x.effect entry ≠ some .unregister ∧ x.Listed schedule := by
  constructor
  · rintro ⟨pre, e, at', post, hsched, hreg, hun, hfresh⟩
    rcases snoc_eq_append_cons.mp hsched with ⟨-, -, hlast⟩ | ⟨post', rfl, rfl⟩
    · obtain ⟨rfl, -⟩ := LocalEvent.apply.inj hlast
      exact Or.inl hreg
    · refine Or.inr ⟨hun entry now (by simp), pre, e, at', post', rfl, hreg, ?_, ?_⟩
      · exact fun e' at'' he' => hun e' at'' (List.mem_append_left _ he')
      · rintro mid at'' rest rfl
        exact hfresh mid at'' (rest ++ [.apply entry now]) (by simp)
  · rintro (hreg | ⟨hne, pre, e, at', post, rfl, hreg, hun, hfresh⟩)
    · exact ⟨schedule, entry, now, [], rfl, hreg, by simp, by simp⟩
    · refine ⟨pre, e, at', post ++ [.apply entry now], by simp, hreg, ?_, ?_⟩
      · intro e' at'' he'
        rcases List.mem_append.mp he' with he' | he'
        · exact hun e' at'' he'
        · obtain ⟨rfl, -⟩ := LocalEvent.apply.inj (List.mem_singleton.mp he')
          exact hne
      · intro mid at'' rest hpost
        rcases snoc_eq_append_cons.mp hpost with ⟨-, -, hlast⟩ | ⟨rest', -, rfl⟩
        · simp at hlast
        · exact hfresh mid at'' rest' rfl

theorem listed_append_sweep (now : ℤ) :
    x.Listed (schedule ++ [.sweep now]) ↔
      x.Listed schedule ∧ ∀ t, x.lastRefresh schedule = some t → now - t ≤ heartbeatTimeout := by
  constructor
  · rintro ⟨pre, e, at', post, hsched, hreg, hun, hfresh⟩
    rcases snoc_eq_append_cons.mp hsched with ⟨-, -, hlast⟩ | ⟨post', rfl, rfl⟩
    · simp at hlast
    · refine ⟨⟨pre, e, at', post', rfl, hreg, ?_, ?_⟩, hfresh post' now [] rfl⟩
      · exact fun e' at'' he' => hun e' at'' (List.mem_append_left _ he')
      · rintro mid at'' rest rfl
        exact hfresh mid at'' (rest ++ [.sweep now]) (by simp)
  · rintro ⟨⟨pre, e, at', post, rfl, hreg, hun, hfresh⟩, hlast⟩
    refine ⟨pre, e, at', post ++ [.sweep now], by simp, hreg, ?_, ?_⟩
    · intro e' at'' he'
      rcases List.mem_append.mp he' with he' | he'
      · exact hun e' at'' he'
      · exact absurd (List.mem_singleton.mp he') (by simp)
    · intro mid at'' rest hpost
      rcases snoc_eq_append_cons.mp hpost with ⟨-, rfl, hsweep⟩ | ⟨rest', -, rfl⟩
      · obtain rfl := LocalEvent.sweep.inj hsweep
        exact hlast
      · exact hfresh mid at'' rest' rfl

/-- An instance is listed by its history if the log leaves it registered and it has not
lapsed. -/
theorem listed_iff (schedule : List LocalEvent) :
    x.Listed schedule ↔ x.Registered (appliedLog schedule) ∧ ¬ x.Lapsed schedule := by
  induction schedule using List.reverseRecOn with
  | nil =>
    refine ⟨?_, ?_⟩
    · rintro ⟨pre, entry, now, post, h, -⟩
      simp at h
    · rintro ⟨⟨pre, entry, post, h, -⟩, -⟩
      simp [appliedLog] at h
  | append_singleton schedule event ih =>
    cases event with
    | sweep now =>
      -- a sweep registers nothing, and makes what it finds late lapse
      rw [listed_append_sweep, appliedLog_append_sweep, lapsed_append_sweep, ih]
      constructor
      · rintro ⟨⟨hreg, hlapsed⟩, hfresh⟩
        refine ⟨hreg, ?_⟩
        rintro (hl | ⟨t, ht, hlate⟩)
        · exact hlapsed hl
        · have hle := hfresh t ht
          omega
      · rintro ⟨hreg, hnot⟩
        refine ⟨⟨hreg, fun hl => hnot (Or.inl hl)⟩, fun t ht => ?_⟩
        by_contra hlate
        exact hnot (Or.inr ⟨t, ht, not_le.mp hlate⟩)
    | apply entry now =>
      -- an entry registers, unregisters, or leaves the instance as it was
      rw [listed_append_apply, appliedLog_append_apply, registered_append, lapsed_append_apply, ih]
      by_cases hreg : x.effect entry = some .register
      · simp [hreg]
      · by_cases hun : x.effect entry = some .unregister
        · simp [hun]
        · simp [hreg, hun]

end InstanceKey

namespace RegistryStateMachine

/-! ### The services counted -/

/-- No service is without instances. -/
def Populated (m : RegistryStateMachine) : Prop := ∀ service ∈ m.services.entries, service.2 ≠ []

section Count

variable {m : RegistryStateMachine}

theorem stampFirst_ne_nil {host : Bytes} {port now : ℤ} {instances stamped : List ServiceInstance}
    (h : stampFirst host port now instances = some stamped) : stamped ≠ [] := by
  cases instances with
  | nil => simp [stampFirst] at h
  | cons i is =>
    rw [stampFirst] at h
    split at h
    · rw [← Option.some.inj h]
      simp
    · obtain ⟨rest, -, rfl⟩ := Option.map_eq_some_iff.mp h
      simp

theorem Populated.insert (h : m.Populated) {name : Bytes} {instances : List ServiceInstance}
    (hne : instances ≠ []) : Populated { services := m.services.insert name instances } := by
  intro service hmem
  rw [AList.entries_insert] at hmem
  rcases List.mem_cons.mp hmem with rfl | hmem
  · exact hne
  · exact h service ((List.kerase_sublist name _).subset hmem)

theorem Populated.erase (h : m.Populated) (name : Bytes) :
    Populated { services := m.services.erase name } :=
  fun service hmem => h service ((List.kerase_sublist name _).subset hmem)

/-- Every event keeps the services populated. -/
theorem Populated.step (h : m.Populated) (event : LocalEvent) : (m.step event).Populated := by
  cases event with
  | sweep now =>
    intro service hmem
    obtain ⟨before, -, hsweep⟩ := List.mem_filterMap.mp hmem
    rw [sweepService] at hsweep
    split at hsweep
    · simp at hsweep
    · next hne =>
      rw [← Option.some.inj hsweep]
      exact hne
  | apply entry now =>
    rw [RegistryStateMachine.step, applyLogEntry]
    split
    · exact h
    · rw [applyServiceOperation]
      split_ifs
      · refine h.insert ?_
        intro hnil
        cases hs : stampFirst _ _ now ((m.services.lookup _).getD []) with
        | none =>
          rw [hs] at hnil
          simp at hnil
        | some stamped =>
          rw [hs] at hnil
          exact stampFirst_ne_nil hs hnil
      · unfold unregisterService
        split
        · exact h
        · simp only
          split
          -- a service whose last instance goes, goes with it
          · exact h.erase _
          · next hne => exact h.insert hne
      · unfold updateHeartbeat
        split
        · exact h
        · split
          · exact h
          · next hs => exact h.insert (stampFirst_ne_nil hs)
      · exact h

theorem populated_run (schedule : List LocalEvent) : (run schedule).Populated := by
  induction schedule using List.reverseRecOn with
  | nil => exact fun service hmem => absurd hmem List.not_mem_nil
  | append_singleton schedule event ih =>
    rw [run_append]
    exact ih.step event

/-- The services counted are those that have an instance. -/
theorem getServiceCount_eq (h : m.Populated) :
    {name | m.getServiceInstances name ≠ []}.encard = m.getServiceCount := by
  have hkeys :
      {name | m.getServiceInstances name ≠ []} = (m.services.keys.toFinset : Set Bytes) := by
    ext name
    rw [Set.mem_ofPred_eq, Finset.mem_coe, List.mem_toFinset]
    unfold getServiceInstances
    constructor
    · intro hne
      rw [← AList.mem_keys, ← AList.lookup_isSome]
      cases hl : m.services.lookup name with
      | none =>
        rw [hl] at hne
        exact absurd rfl hne
      | some instances => rfl
    · intro hmem
      rw [← AList.mem_keys, ← AList.lookup_isSome, Option.isSome_iff_exists] at hmem
      obtain ⟨instances, hl⟩ := hmem
      rw [hl]
      exact h _ (AList.mem_lookup_iff.mp hl)
  rw [hkeys, Set.encard_coe_eq_coe_finsetCard, List.toFinset_card_of_nodup m.services.keys_nodup,
    AList.keys, List.keys, List.length_map]
  rfl

end Count

/-! ### The specification -/

theorem heartbeatAt_eq_of_mem {host : Bytes} {port : ℤ} {instances : List ServiceInstance}
    (hdist : Distinct instances) {i : ServiceInstance} (hi : i ∈ instances) (hat : i.At host port) :
    heartbeatAt host port instances = some i.lastHeartbeat := by
  induction instances with
  | nil => simp at hi
  | cons j js ih =>
    obtain ⟨hj, hjs⟩ := List.nodup_cons.mp hdist
    rw [heartbeatAt_cons]
    rcases List.mem_cons.mp hi with rfl | hmem
    · rw [if_pos hat]
    · -- nothing before `i` is at its address
      have hnot : ¬ j.At host port := by
        rintro ⟨hhost, hport⟩
        exact hj (List.mem_map.mpr
          ⟨i, hmem, Prod.ext (hat.1.trans hhost.symm) (hat.2.trans hport.symm)⟩)
      rw [if_neg hnot]
      exact ih hjs hmem

/-- **The machine is what its history says**: what it lists of an instance, once at most,
with which last heartbeat, and how many services it counts. -/
theorem history_spec (schedule : List LocalEvent) (serviceName host : Bytes) (port : ℤ) :
    (((run schedule).getServiceInstances serviceName).map fun i => (i.host, i.port)).count
        (host, port) ≤ 1 ∧
      ((host, port) ∈ ((run schedule).getServiceInstances serviceName).map
          (fun i => (i.host, i.port)) ↔
        InstanceKey.Listed ⟨serviceName, host, port⟩ schedule) ∧
      (∀ i ∈ (run schedule).getServiceInstances serviceName, i.At host port →
        InstanceKey.lastRefresh ⟨serviceName, host, port⟩ schedule = some i.lastHeartbeat) ∧
      {name | (run schedule).getServiceInstances name ≠ []}.encard =
        (run schedule).getServiceCount := by
  have hdist := wellformed_run schedule serviceName
  refine ⟨List.nodup_iff_count_le_one.mp hdist _, ?_, ?_, ?_⟩
  · rw [InstanceKey.listed_iff, ← InstanceKey.isSome_lastHeartbeat_run]
    exact mem_getServiceInstances (run schedule) ⟨serviceName, host, port⟩
  · intro i hi hat
    have hheld : (run schedule).lastHeartbeat ⟨serviceName, host, port⟩ = some i.lastHeartbeat :=
      heartbeatAt_eq_of_mem hdist hi hat
    rw [lastHeartbeat_run] at hheld
    exact ((InstanceKey.tracks schedule).1 _ |>.mp hheld).2.2
  · exact getServiceCount_eq (populated_run schedule)

end RegistryStateMachine
