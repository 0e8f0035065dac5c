import RpcFramework.Raft.Applied
import RpcFramework.Registry.Reads

/-!
# What the distributed registry lists

Nobody but the handlers of client requests proposes entries, and of these only the handler of
registrations is ever reached.  So every entry in a log is the entry of a registration that was
answered with success, nothing is ever unregistered, and what a node lists can be told from the
registrations and from its own sweeps alone: whatever happens in the cluster, nothing is listed
that nobody registered.

## Main definitions

* `DistributedRegistry.ClientsOnly` — entries come from client requests.
* `DistributedRegistry.Lists` — a discovery at a node finds an instance.
* `DistributedRegistry.Linked` — the invariant: each machine has gone through what the log
  applier handed it, and each entry is that of a registration.
* `DistributedRegistry.AheadOf` — one node has applied what another has, and perhaps more.

## Main results

* `distributedRegistry_lists_iff` — **exactly what a node lists**, in every run whatsoever.
* `distributedRegistry_aheadOf` — **of any two nodes one lists what the other does**, but for
  its own sweeps, in every run that follows the protocol.
-/

open Rpc

/-- What an entry does, it does to one instance. -/
theorem InstanceKey.effect_unique : ∀ {x y : InstanceKey} {entry : LogEntry}
    {o o' : OperationType}, x.effect entry = some o → y.effect entry = some o' →
      x = y ∧ o = o' := by
  intro x y entry o o' hx hy
  obtain ⟨operation, hop, hx⟩ := Option.bind_eq_some_iff.mp hx
  obtain ⟨operation', hop', hy⟩ := Option.bind_eq_some_iff.mp hy
  obtain rfl : operation = operation' := Option.some.inj (hop.symm.trans hop')
  obtain ⟨hkey, hx⟩ := Option.ite_none_right_eq_some.mp hx
  obtain ⟨hkey', hy⟩ := Option.ite_none_right_eq_some.mp hy
  exact ⟨hkey.trans hkey'.symm, Option.some.inj (hx.symm.trans hy)⟩

/-! ### Steps of the cluster -/

namespace Cluster

variable {cfg : ClusterConfig} {s t : Cluster} {a : Action} {i : Bytes} {e : Effect}

/-- Entries are proposed by operations alone. -/
theorem Course.proposed (hcourse : Course s a i e) : ∀ {j : Bytes} {entry : LogEntry},
    .proposed j entry ∈ e.events → ∃ operation, a = .operate i operation := by
  intro j entry hmem
  have hloud : ∀ h : ∀ ev ∈ e.events, ev.leads = false, False := by
    intro h
    exact not_proposed_of_silent h _ hmem j entry rfl
  cases hcourse with
  | stay hrole hterm hlog hact hsilent => exact (hloud hsilent).elim
  | stepDown hrole hterm hlog hact hsilent => exact (hloud hsilent).elim
  | stand haction hrole hterm hlog hsilent => exact (hloud hsilent).elim
  | win hact hidle hterm hlog hevents =>
    rw [hevents] at hmem
    exact absurd (List.mem_singleton.mp hmem) (by simp)
  | append entry' acknowledged haction hlead hentry hidle hnode hevents => exact haction
  | accept call src request hrequest hle hcons hlog hrole hterm hidle hsilent =>
    exact (hloud hsilent).elim

/-- What the history says a machine was handed, the machine is handed. -/
theorem Step.handed (hstep : Step cfg s a i e) : ∀ j,
    (handedTo e.events j).map Prod.snd = DistributedRegistry.handed s a j := by
  intro j
  rcases hstep.applying with ⟨hother, -, hnone⟩ | ⟨rfl, -, hentries⟩
  · have hquiet : DistributedRegistry.handed s a j = [] := by
      cases a with
      | applyCommitted k => exact absurd rfl (hother k)
      | electionTimeout | sendRequestVote | receiveVote | loseVote | finishElection
      | startHeartbeat | sendAppendEntries | receiveAppend | loseAppend | finishHeartbeat | deliver
      | operate => rfl
    rw [hquiet]
    by_cases hj : j = i
    · rw [hj, hnone]
      rfl
    · rw [handedTo_of_node hstep.node_of_mem_events hj]
      rfl
  · by_cases hj : j = i
    · rw [hj, hentries]
      simp [DistributedRegistry.handed]
    · rw [handedTo_of_node hstep.node_of_mem_events hj]
      simp [DistributedRegistry.handed, hj]

/-- A registration proposes its own entry, and that it is answered with success is noted. -/
theorem proposed_operate : ∀ {request : ServiceRegisterRequest} {timestamp : ℤ} {j : Bytes}
    {entry : LogEntry},
    .proposed j entry ∈ (operate i (s.nodes i) (.serviceRegister request timestamp)).2 →
      ∃ r ∈ DistributedRegistry.acknowledged (s.nodes i) request timestamp, r.entry = entry := by
  intro request timestamp j entry hmem
  simp only [operate, DistributedRegistryServer.handleServiceRegister_eq] at hmem
  unfold DistributedRegistry.acknowledged
  rw [DistributedRegistryServer.handleServiceRegister_eq]
  by_cases hrole : (s.nodes i).role = .leader
  · simp only [if_pos hrole, if_true, operationEvents, List.getLast?_append,
      List.getLast?_singleton, Option.some_or, Option.elim_some] at hmem
    simp only [if_pos hrole, if_true, List.getLast?_append, List.getLast?_singleton,
      Option.some_or, Option.toList_some, List.map_singleton, List.mem_singleton]
    rcases mem_proposeEvents hmem with ⟨-, heq⟩ | heq
    · simp at heq
    · exact ⟨_, rfl, (Event.proposed.inj heq).2.symm⟩
  · simp [if_neg hrole] at hmem

end Cluster

/-! ### The invariant -/

namespace DistributedRegistry

/-- Entries are proposed on behalf of clients only. -/
def ClientsOnly (_ : DistributedRegistry) : RegistryAction → Prop
  | .raft (.operate ..) => False
  | _ => True

instance decidableClientsOnly (s : DistributedRegistry) (a : RegistryAction) :
    Decidable (s.ClientsOnly a) :=
  match a with
  | .raft (.operate ..) => isFalse id
  | .raft (.electionTimeout _) | .raft (.sendRequestVote _) | .raft (.receiveVote ..)
  | .raft (.loseVote _) | .raft (.finishElection _) | .raft (.startHeartbeat _)
  | .raft (.sendAppendEntries _) | .raft (.receiveAppend ..) | .raft (.loseAppend _)
  | .raft (.finishHeartbeat _) | .raft (.deliver _) | .raft (.applyCommitted _)
  | .client .. | .applyEntry .. | .cleanup .. => isTrue trivial

/-- A discovery of the instance's service, answered by node `i`, finds the instance. -/
def Lists (s : DistributedRegistry) (i : Bytes) (x : InstanceKey) : Prop :=
  ∃ info ∈ (DistributedRegistryServer.handleServiceDiscovery (s.machines i)
      { serviceName := x.serviceName }).services,
    info.host = x.host ∧ info.port = x.port

/-- Each machine has gone through, or will be handed next, what the log applier passed on; and
every entry that was proposed is the entry of a registration. -/
structure Linked (s : DistributedRegistry) : Prop where
  office : office.Hold s.cluster
  logs : (inherited Proposed).Hold s.cluster
  inOrder : appliedInOrder.Hold s.cluster
  passed : ∀ i, (handedTo s.cluster.history i).map Prod.snd =
    appliedLog (s.schedules i) ++ s.pending i
  answered : ∀ i entry, .proposed i entry ∈ s.cluster.history →
    ∃ r ∈ s.registered, r.entry = entry
  recorded : Recorded s

section Linked

variable {cfg : ClusterConfig} {s t : DistributedRegistry}

/-- A step of the cluster keeps the two sides linked, if the entries it proposes are noted. -/
theorem Linked.cluster_step {b : Cluster.Action} (hs : Linked s)
    (h : Cluster.step cfg s.cluster b = some t.cluster)
    (hpending : ∀ j, t.pending j = s.pending j ++ handed s.cluster b j)
    (hschedules : t.schedules = s.schedules)
    (hanswered : ∀ i entry, .proposed i entry ∈ t.cluster.history →
      .proposed i entry ∈ s.cluster.history ∨ ∃ r ∈ t.registered, r.entry = entry)
    (hold : ∀ r ∈ s.registered, r ∈ t.registered) (hrecorded : Recorded t) : Linked t := by
  obtain ⟨i, e, hstep, hcluster⟩ := Cluster.step_cases h
  refine ⟨?_, ?_, ?_, ?_, ?_, hrecorded⟩
  · rw [hcluster]
    exact office_after hs.office hstep.course
  · rw [hcluster]
    exact inherited_after inherited_proposed hs.logs trivial hstep
  · rw [hcluster]
    exact appliedInOrder_after hs.inOrder (nothingMadeUp_of_proposed hs.office hs.logs) hstep
  · intro j
    rw [hcluster, Cluster.history_after, handedTo_append, List.map_append, hs.passed, hschedules,
      hpending, hstep.handed, List.append_assoc]
  · intro j entry hmem
    rcases hanswered j entry hmem with hbefore | hnew
    · obtain ⟨r, hr, hentry⟩ := hs.answered j entry hbefore
      exact ⟨r, hold r hr, hentry⟩
    · exact hnew

/-- **Every step keeps the two sides linked.** -/
theorem linked_step {a : RegistryAction} (hs : Linked s) (hguard : s.ClientsOnly a)
    (h : step cfg s a = some t) : Linked t := by
  have hrecorded := recorded_step hs.recorded h
  cases a with
  | raft a =>
    simp only [step, Option.ite_none_left_eq_some] at h
    obtain ⟨cluster, hcluster, rfl⟩ := Option.map_eq_some_iff.mp h.2
    refine hs.cluster_step hcluster (fun j => rfl) rfl ?_ (fun r hr => hr) hrecorded
    intro j entry hmem
    obtain ⟨i, e, hstep, rfl⟩ := Cluster.step_cases hcluster
    rcases List.mem_append.mp hmem with hnew | hold
    · -- only an operation proposes, and that would be a client's
      obtain ⟨operation, rfl⟩ := hstep.course.proposed hnew
      exact hguard.elim
    · exact Or.inl hold
  | client i data timestamp =>
    simp only [step, Option.ite_none_right_eq_some] at h
    obtain ⟨-, h⟩ := h
    split at h
    · next request hdispatch =>
      obtain ⟨cluster, hcluster, rfl⟩ := Option.map_eq_some_iff.mp h
      refine hs.cluster_step hcluster (fun j => ?_) rfl ?_ ?_ hrecorded
      · exact (List.append_nil _).symm
      · intro j entry hmem
        simp only [Cluster.step, Option.ite_none_right_eq_some, Option.some.injEq] at hcluster
        obtain ⟨-, rfl⟩ := hcluster
        rcases List.mem_append.mp hmem with hnew | hold
        · obtain ⟨r, hr, hentry⟩ := Cluster.proposed_operate hnew
          exact Or.inr ⟨r, List.mem_append_left _ hr, hentry⟩
        · exact Or.inl hold
      · intro r hr
        exact List.mem_append_right _ hr
    · next request hdispatch =>
      -- a heartbeat is taken for a registration, and never gets here
      exact absurd ((DistributedRegistryServer.dispatch_eq_some_iff (by simp)).mp hdispatch)
        (RegistryServer.dispatch_ne_heartbeat data request)
    · obtain rfl := Option.some.inj h
      exact hs
  | applyEntry i now =>
    simp only [step] at h
    split at h
    · simp at h
    · next entry rest hpending =>
      obtain rfl := Option.some.inj h
      refine ⟨hs.office, hs.logs, hs.inOrder, ?_, hs.answered, hrecorded⟩
      intro j
      rw [show (s.machineStep i (.apply entry now)).cluster = s.cluster from rfl]
      rw [hs.passed j]
      by_cases hj : j = i
      · subst hj
        simp only [machineStep, Function.update_self, hpending,
          InstanceKey.appliedLog_append_apply, List.append_assoc, List.singleton_append]
      · simp only [machineStep, Function.update_of_ne hj]
  | cleanup i now =>
    obtain rfl := Option.some.inj h
    refine ⟨hs.office, hs.logs, hs.inOrder, ?_, hs.answered, hrecorded⟩
    intro j
    rw [show (s.machineStep i (.sweep now)).cluster = s.cluster from rfl, hs.passed j]
    by_cases hj : j = i
    · subst hj
      simp only [machineStep, Function.update_self, InstanceKey.appliedLog_append_sweep]
    · simp only [machineStep, Function.update_of_ne hj]

end Linked

end DistributedRegistry

/-! ### What is listed -/

namespace DistributedRegistry

section Lists

variable {s : DistributedRegistry}

/-- What a machine has applied are entries of registrations. -/
theorem Linked.exists_registration (hs : s.Linked) : ∀ {i : Bytes} {entry : LogEntry},
    entry ∈ appliedLog (s.schedules i) → ∃ r ∈ s.registered, r.entry = entry := by
  intro i entry hmem
  obtain ⟨l, hhanded, -, hgenuine⟩ := hs.inOrder.node i
  have hpassed : (handedTo s.cluster.history i).map Prod.snd =
      appliedLog (s.schedules i) ++ s.pending i := hs.passed i
  have hl : entry ∈ l := by
    have hin : entry ∈ (handedTo s.cluster.history i).map Prod.snd := by
      rw [hpassed]
      exact List.mem_append_left _ hmem
    rw [show handedTo s.cluster.history i = consecutive 0 l from hhanded,
      map_snd_consecutive] at hin
    exact hin
  obtain ⟨p, hp⟩ := List.mem_iff_getElem?.mp hl
  obtain ⟨-, j, hbefore⟩ := hgenuine p entry hp
  exact hs.answered j entry hbefore.proposed

/-- Nothing a machine has applied unregisters anything. -/
theorem Linked.effect_ne_unregister (hs : s.Linked) : ∀ {i : Bytes} {entry : LogEntry},
    entry ∈ appliedLog (s.schedules i) → ∀ x : InstanceKey, x.effect entry ≠ some .unregister := by
  intro i entry hmem x hun
  obtain ⟨r, hr, rfl⟩ := hs.exists_registration hmem
  obtain ⟨-, hreg⟩ := hs.recorded.registered r hr
  exact absurd (InstanceKey.effect_unique hun hreg).2 (by simp)

/-- The log leaves an instance registered just if it was ever registered. -/
theorem Linked.registered_iff (hs : s.Linked) (i : Bytes) (x : InstanceKey) :
    x.Registered (appliedLog (s.schedules i)) ↔
      ∃ r ∈ s.registered, r.request.key = x ∧ r.entry ∈ appliedLog (s.schedules i) := by
  constructor
  · rintro ⟨pre, entry, post, hlog, hreg, -⟩
    have hmem : entry ∈ appliedLog (s.schedules i) := by
      rw [hlog]
      exact List.mem_append_right _ List.mem_cons_self
    obtain ⟨r, hr, rfl⟩ := hs.exists_registration hmem
    obtain ⟨-, hreg'⟩ := hs.recorded.registered r hr
    exact ⟨r, hr, (InstanceKey.effect_unique hreg' hreg).1, hmem⟩
  · rintro ⟨r, hr, rfl, hmem⟩
    obtain ⟨-, hreg⟩ := hs.recorded.registered r hr
    obtain ⟨pre, post, hlog⟩ := List.append_of_mem hmem
    refine ⟨pre, r.entry, post, hlog, hreg, ?_⟩
    intro e he
    refine hs.effect_ne_unregister (i := i) ?_ _
    rw [hlog]
    exact List.mem_append_right _ (List.mem_cons_of_mem _ he)

/-- **Exactly what a node lists.** -/
theorem Linked.lists_iff (hs : s.Linked) (i : Bytes) (x : InstanceKey) :
    s.Lists i x ↔
      (∃ r ∈ s.registered, r.request.key = x ∧ r.entry ∈ appliedLog (s.schedules i)) ∧
        ¬ x.Lapsed (s.schedules i) := by
  unfold Lists
  rw [DistributedRegistryServer.mem_handleServiceDiscovery, hs.recorded.machines,
    InstanceKey.isSome_lastHeartbeat_run, hs.registered_iff]
  refine and_iff_right_of_imp ?_
  rintro ⟨⟨r, hr, rfl, -⟩, -⟩
  exact (hs.recorded.registered r hr).1.2

theorem linked_start (cfg : ClusterConfig) : Linked { cluster := Cluster.start cfg } where
  office := office_start cfg
  logs := inherited_start inherited_proposed cfg
  inOrder := appliedInOrder_start cfg
  passed _ := rfl
  answered _ _ hmem := absurd hmem List.not_mem_nil
  recorded := ⟨fun _ => rfl, fun _ hr => absurd hr List.not_mem_nil⟩

end Lists

end DistributedRegistry

/-- **Exactly what a node lists**: in every run, whatever becomes of messages and offices, a node
lists an instance just if some registration of it was answered with success, the node has
applied the entry of that registration, and no sweep of its own has dropped the instance since. -/
theorem distributedRegistry_lists_iff (cfg : ClusterConfig) :
    ∀ (as : List RegistryAction) (t : DistributedRegistry),
      ((distributedRegistry cfg).restrict DistributedRegistry.ClientsOnly).exec
          (distributedRegistry cfg).init as = some t →
        ∀ (i : Bytes) (x : InstanceKey), t.Lists i x ↔
          (∃ r ∈ t.registered, r.request.key = x ∧ r.entry ∈ appliedLog (t.schedules i)) ∧
            ¬ x.Lapsed (t.schedules i) := by
  intro as t h i x
  have ht : t.Linked := by
    refine System.exec_invariant ?_ (DistributedRegistry.linked_start cfg) h
    intro s a u hs hst
    obtain ⟨hguard, hnext⟩ := System.step_restrict.mp hst
    exact DistributedRegistry.linked_step hs hguard hnext
  exact ht.lists_iff i x

/-- `A` is elected and answers a registration, `B` accepts its entry, and `A` applies it. -/
def sampleListing : List RegistryAction :=
  sampleRegistration ++
    ([.startHeartbeat (utf8 "A"), .sendAppendEntries (utf8 "A"), .deliver 2,
      .receiveAppend (utf8 "A") 1, .applyCommitted (utf8 "A")].map RegistryAction.raft) ++
      [.applyEntry (utf8 "A") 0]

theorem distributedRegistry_lists_sample :
    ∃ t, ((distributedRegistry sampleCluster).restrict DistributedRegistry.ClientsOnly).exec
        (distributedRegistry sampleCluster).init sampleListing = some t ∧
      (appliedLog (t.schedules (utf8 "A"))).length = 1 ∧
      (t.Lists (utf8 "A") ClientRequest.sampleRegister.key ↔
        (∃ r ∈ t.registered, r.request.key = ClientRequest.sampleRegister.key ∧
            r.entry ∈ appliedLog (t.schedules (utf8 "A"))) ∧
          ¬ ClientRequest.sampleRegister.key.Lapsed (t.schedules (utf8 "A"))) := by
  obtain ⟨t, ht, htest⟩ := ((distributedRegistry sampleCluster).restrict
    DistributedRegistry.ClientsOnly).exists_exec_of_any (distributedRegistry sampleCluster).init
    sampleListing (fun t => decide ((appliedLog (t.schedules (utf8 "A"))).length = 1))
    (by decide +kernel)
  exact ⟨t, ht, of_decide_eq_true htest,
    distributedRegistry_lists_iff sampleCluster _ t ht (utf8 "A") _⟩

/-! ### Two nodes -/

namespace DistributedRegistry

/-- The cluster's own steps follow the protocol, and entries are proposed for clients only. -/
def FollowsProtocol (s : DistributedRegistry) (a : RegistryAction) : Prop :=
  s.ClientsOnly a ∧
    match a with
    | .raft b => s.cluster.FollowsRaft b
    | _ => True

instance decidableFollowsProtocol (s : DistributedRegistry) (a : RegistryAction) :
    Decidable (s.FollowsProtocol a) :=
  match a with
  | .raft b => inferInstanceAs (Decidable (s.ClientsOnly (.raft b) ∧ s.cluster.FollowsRaft b))
  | .client .. => inferInstanceAs (Decidable (s.ClientsOnly _ ∧ True))
  | .applyEntry .. => inferInstanceAs (Decidable (s.ClientsOnly _ ∧ True))
  | .cleanup .. => inferInstanceAs (Decidable (s.ClientsOnly _ ∧ True))

/-- Node `j` has applied what node `i` has, and perhaps more; and it lists what `i` lists, but for
what its own sweeps have dropped. -/
structure AheadOf (s : DistributedRegistry) (i j : Bytes) : Prop where
  applied : appliedLog (s.schedules i) <+: appliedLog (s.schedules j)
  lists : ∀ x : InstanceKey, s.Lists i x → ¬ x.Lapsed (s.schedules j) → s.Lists j x

section AheadOf

variable {cfg : ClusterConfig} {s t : DistributedRegistry} {i j : Bytes}

/-- An operation is within the protocol whatever the state. -/
theorem followsRaft_operate (c : Cluster) (i : Bytes) (operation : Operation) :
    c.FollowsRaft (.operate i operation) :=
  ⟨⟨trivial, trivial, trivial⟩, trivial, trivial, trivial⟩

/-- What the cluster goes through in a run that follows the protocol is sound. -/
theorem sound_step (hs : Sound cfg s.cluster ∧
      ∀ i, AppliedFromLog s.cluster.history i (s.cluster.nodes i)) {a : RegistryAction}
    (hguard : s.FollowsProtocol a) (h : step cfg s a = some t) :
    Sound cfg t.cluster ∧ ∀ i, AppliedFromLog t.cluster.history i (t.cluster.nodes i) := by
  have hcluster : ∀ {b : Cluster.Action} {u : Cluster}, s.cluster.FollowsRaft b →
      Cluster.step cfg s.cluster b = some u →
        Sound cfg u ∧ ∀ i, AppliedFromLog u.history i (u.nodes i) := by
    intro b u hfollows hstep
    obtain ⟨k, e, hcases, rfl⟩ := Cluster.step_cases hstep
    exact ⟨hs.1.after hfollows hcases, fun i => (hs.2 i).after hs.1 hfollows hcases⟩
  cases a with
  | raft b =>
    simp only [step, Option.ite_none_left_eq_some] at h
    obtain ⟨u, hu, rfl⟩ := Option.map_eq_some_iff.mp h.2
    exact hcluster hguard.2 hu
  | client k data timestamp =>
    simp only [step, Option.ite_none_right_eq_some] at h
    obtain ⟨-, h⟩ := h
    split at h
    · obtain ⟨u, hu, rfl⟩ := Option.map_eq_some_iff.mp h
      exact hcluster (followsRaft_operate _ _ _) hu
    · obtain ⟨u, hu, rfl⟩ := Option.map_eq_some_iff.mp h
      exact hcluster (followsRaft_operate _ _ _) hu
    · obtain rfl := Option.some.inj h
      exact hs
  | applyEntry k now =>
    simp only [step] at h
    split at h
    · simp at h
    · obtain rfl := Option.some.inj h
      exact hs
  | cleanup k now =>
    obtain rfl := Option.some.inj h
    exact hs

/-- What is behind in the log is behind in the registry. -/
theorem Linked.aheadOf (hs : s.Linked)
    (h : appliedLog (s.schedules i) <+: appliedLog (s.schedules j)) : s.AheadOf i j where
  applied := h
  lists x hi hlapsed := by
    obtain ⟨⟨r, hr, hkey, hmem⟩, -⟩ := (hs.lists_iff i x).mp hi
    exact (hs.lists_iff j x).mpr ⟨⟨r, hr, hkey, h.subset hmem⟩, hlapsed⟩

end AheadOf

end DistributedRegistry

/-- **Of any two nodes one is ahead of the other**: in every run that follows the protocol one
has applied the same registrations in the same order, and perhaps more, and lists every instance
that the other lists, but for those its own sweeps have dropped. -/
theorem distributedRegistry_aheadOf (cfg : ClusterConfig) :
    ∀ (as : List RegistryAction) (t : DistributedRegistry),
      ((distributedRegistry cfg).restrict DistributedRegistry.FollowsProtocol).exec
          (distributedRegistry cfg).init as = some t →
        ∀ i j, t.AheadOf i j ∨ t.AheadOf j i := by
  intro as t h i j
  have hall : t.Linked ∧ Sound cfg t.cluster ∧
      ∀ i, AppliedFromLog t.cluster.history i (t.cluster.nodes i) := by
    refine System.exec_invariant (I := fun s : DistributedRegistry => s.Linked ∧
      Sound cfg s.cluster ∧ ∀ i, AppliedFromLog s.cluster.history i (s.cluster.nodes i)) ?_
      ⟨DistributedRegistry.linked_start cfg, sound_start cfg, fun _ => rfl⟩ h
    rintro s a u ⟨hlinked, hsound⟩ hst
    obtain ⟨hguard, hnext⟩ := System.step_restrict.mp hst
    exact ⟨DistributedRegistry.linked_step hlinked hguard.1 hnext,
      DistributedRegistry.sound_step hsound hguard hnext⟩
  obtain ⟨hlinked, hsound, hfrom⟩ := hall
  have hagree : MachinesAgree t.cluster := machinesAgree_of_sound hsound hfrom
  -- what is applied is the beginning of what was handed over
  have hpre : ∀ k, appliedLog (t.schedules k) <+:
      (handedTo t.cluster.history k).map Prod.snd := by
    intro k
    rw [hlinked.passed k]
    exact List.prefix_append _ _
  have hcomparable : appliedLog (t.schedules i) <+: appliedLog (t.schedules j) ∨
      appliedLog (t.schedules j) <+: appliedLog (t.schedules i) := by
    rcases hagree.2 i j with hij | hji
    · exact List.prefix_or_prefix_of_prefix ((hpre i).trans (hij.map Prod.snd)) (hpre j)
    · exact List.prefix_or_prefix_of_prefix (hpre i) ((hpre j).trans (hji.map Prod.snd))
  exact hcomparable.imp hlinked.aheadOf hlinked.aheadOf

theorem distributedRegistry_aheadOf_sample :
    ∃ t, ((distributedRegistry sampleCluster).restrict DistributedRegistry.FollowsProtocol).exec
        (distributedRegistry sampleCluster).init sampleListing = some t ∧
      (t.AheadOf (utf8 "A") (utf8 "B") ∨ t.AheadOf (utf8 "B") (utf8 "A")) := by
  obtain ⟨t, ht, -⟩ := ((distributedRegistry sampleCluster).restrict
    DistributedRegistry.FollowsProtocol).exists_exec_of_any
    (distributedRegistry sampleCluster).init sampleListing (fun _ => true) (by decide +kernel)
  exact ⟨t, ht, distributedRegistry_aheadOf sampleCluster _ t ht _ _⟩
