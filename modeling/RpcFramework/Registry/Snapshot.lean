import RpcFramework.Lib.TextStream
import RpcFramework.Registry.StateMachine

/-!
# Snapshots of the registry's state machine

A snapshot is text: the number of services, and for each its name, the number of its
instances, and for each of them the host, the port and the time of the last heartbeat in
milliseconds, with blanks and line ends in between.  Restoring reads it token by token and
never asks whether an extraction failed.

## Main definitions

* `RegistryStateMachine.getSnapshot`, `RegistryStateMachine.restoreFromSnapshot`.
* `RegistryStateMachine.Change` — what happens to a machine before the snapshot is taken.
* `RegistryStateMachine.Restores` — a machine holds what another one held.

## Main results

* `RegistryStateMachine.restoreServices_snapshot` — what was written is read back, if no
  string has whitespace in it.
* `RegistryStateMachine.spaceless_restoreServices` — no string that is read has whitespace.
* `RegistryStateMachine.snapshot_restores_iff` — **when a snapshot restores the machine.**
-/

open Wire

/-- The instance with its heartbeat cut to milliseconds. -/
def ServiceInstance.inMilliseconds (i : ServiceInstance) : ServiceInstance :=
  { i with lastHeartbeat := i.lastHeartbeat.tdiv (10 ^ 6) * 10 ^ 6 }

namespace RegistryStateMachine

/-! ### Writing -/

def snapshotInstance (i : ServiceInstance) : Bytes :=
  i.host ++ utf8 " " ++ decimal i.port ++ utf8 " " ++ decimal (i.lastHeartbeat.tdiv (10 ^ 6)) ++
    utf8 "\n"

def snapshotService (service : Σ _ : Bytes, List ServiceInstance) : Bytes :=
  service.1 ++ utf8 " " ++ decimalNat service.2.length ++ utf8 "\n" ++
    service.2.flatMap snapshotInstance

/-- `getSnapshot`, when the loop over the map meets the services in the given order. -/
def getSnapshot (services : List (Σ _ : Bytes, List ServiceInstance)) : Bytes :=
  decimalNat services.length ++ utf8 "\n" ++ services.flatMap snapshotService

/-! ### Reading -/

/-- What the variables hold that `restoreFromSnapshot` declares without a value, by the
rounds its loops still have to go.  An extraction that finds the stream failed leaves them so. -/
structure Uninitialized where
  serviceCount : ℕ
  instanceCount : ℕ → ℕ
  port : ℕ → ℕ → ℤ
  timestamp : ℕ → ℕ → ℤ

/-- The loop over the instances of a service. -/
def restoreInstances (port timestamp : ℕ → ℤ) :
    ℕ → TextStream → List ServiceInstance × TextStream
  | 0, s => ([], s)
  | count + 1, s =>
      let (host, s) := s.extractString []
      let (port', s) := s.extractSigned 32 (port count)
      let (timestamp', s) := s.extractSigned 64 (timestamp count)
      let (instances, s) := restoreInstances port timestamp count s
      (⟨host, port', timestamp' * 10 ^ 6⟩ :: instances, s)

/-- The loop over the services. -/
def restoreServices (u : Uninitialized) :
    ℕ → TextStream → AList (fun _ : Bytes => List ServiceInstance) →
      AList fun _ : Bytes => List ServiceInstance
  | 0, _, services => services
  | count + 1, s, services =>
      let (serviceName, s) := s.extractString []
      let (instanceCount, s) := s.extractUnsigned 64 (u.instanceCount count)
      let (instances, s) := restoreInstances (u.port count) (u.timestamp count) instanceCount s
      restoreServices u count s (services.insert serviceName instances)

/-- `restoreFromSnapshot`; what the machine held before is cleared. -/
def restoreFromSnapshot (u : Uninitialized) (_ : RegistryStateMachine) (snapshot : Bytes) :
    RegistryStateMachine :=
  let (serviceCount, s) := (TextStream.of snapshot).extractUnsigned 64 u.serviceCount
  { services := restoreServices u serviceCount s ∅ }

/-- The machine `m'` has the services of `m`, each with the same instances in the same
order, but for the heartbeats, which are cut to milliseconds. -/
def Restores (m m' : RegistryStateMachine) : Prop :=
  ∀ serviceName, m'.services.lookup serviceName =
    (m.services.lookup serviceName).map (List.map ServiceInstance.inMilliseconds)

/-! ### Machines in use -/

/-- What happens to a machine, at the time its clock shows. -/
inductive Change where
  | register (serviceName host : Bytes) (port now : ℤ)
  | heartbeat (serviceName host : Bytes) (port now : ℤ)
  | unregister (serviceName host : Bytes) (port : ℤ)
  | sweep (now : ℤ)
  deriving DecidableEq, Repr

def change (m : RegistryStateMachine) : Change → RegistryStateMachine
  | .register serviceName host port now => m.registerService serviceName host port now
  | .heartbeat serviceName host port now => m.updateHeartbeat serviceName host port now
  | .unregister serviceName host port => m.unregisterService serviceName host port
  | .sweep now => m.removeExpiredServices now

/-- The servers accept the registration; ports are `int`s and clock readings are counted in
64 bits. -/
def Change.Admitted : Change → Prop
  | .register serviceName host port now =>
      (serviceName ≠ [] ∧ host ≠ [] ∧ 0 < port) ∧ InRange 32 port ∧ InRange 64 now
  | .heartbeat _ _ _ now => InRange 64 now
  | .unregister _ _ _ => True
  | .sweep _ => True

instance : DecidablePred Change.Admitted
  | .register _ _ _ _ => inferInstanceAs (Decidable ((_ ∧ _ ∧ _) ∧ _ ∧ _))
  | .heartbeat _ _ _ _ => inferInstanceAs (Decidable (InRange 64 _))
  | .unregister _ _ _ => instDecidableTrue
  | .sweep _ => instDecidableTrue

/-- What every registered instance is like. -/
structure Sound (i : ServiceInstance) : Prop where
  host : i.host ≠ []
  port : InRange 32 i.port
  lastHeartbeat : InRange 64 i.lastHeartbeat

/-- Every service has a name, and its instances are sound. -/
def Registered : RegistryStateMachine → Prop := AllServices (· ≠ []) Sound

/-- The containers are of a size that `size_t` can tell. -/
def Sized (m : RegistryStateMachine) : Prop :=
  m.services.entries.length < 2 ^ 64 ∧
    ∀ service ∈ m.services.entries, service.2.length < 2 ^ 64

/-- No name of a service and no host has whitespace in it. -/
def SpacelessNames : RegistryStateMachine → Prop :=
  AllServices Spaceless fun i => Spaceless i.host

instance : DecidablePred SpacelessNames := fun _ => List.decidableBAll _ _

section Registered

variable {m : RegistryStateMachine}

theorem Sound.stamp {i : ServiceInstance} {now : ℤ} (hnow : InRange 64 now) (h : Sound i) :
    Sound { i with lastHeartbeat := now } :=
  ⟨h.host, h.port, hnow⟩

/-- Every admitted change keeps names and instances sound. -/
theorem registered_change (h : m.Registered) {c : Change} (hc : c.Admitted) :
    (m.change c).Registered := by
  cases c with
  | register serviceName host port now =>
    obtain ⟨⟨hname, hhost, -⟩, hport, hnow⟩ := hc
    exact h.registerService hname ⟨hhost, hport, hnow⟩ fun i hi => hi.stamp hnow
  | heartbeat serviceName host port now => exact h.updateHeartbeat fun i hi => hi.stamp hc
  | unregister serviceName host port => exact h.unregisterService
  | sweep now => exact h.removeExpiredServices

theorem registered_foldl (h : m.Registered) {changes : List Change}
    (hc : ∀ c ∈ changes, c.Admitted) : (changes.foldl change m).Registered := by
  induction changes generalizing m with
  | nil => exact h
  | cons c changes ih =>
    rw [List.forall_mem_cons] at hc
    exact ih (registered_change h hc.1) hc.2

end Registered

/-! ### What was written is read back -/

section RoundTrip

variable {i : ServiceInstance} {instances : List ServiceInstance} {more : Bytes}

/-- Milliseconds take fewer digits than nanoseconds. -/
theorem inRange_tdiv {x : ℤ} (h : InRange 64 x) : InRange 64 (x.tdiv (10 ^ 6)) := by
  obtain ⟨hlo, hhi⟩ := h
  show -2 ^ (64 - 1) ≤ x.tdiv (10 ^ 6) ∧ x.tdiv (10 ^ 6) < 2 ^ (64 - 1)
  rcases Int.le_total 0 x with hx | hx
  · rw [Int.tdiv_eq_ediv_of_nonneg hx]
    omega
  · obtain ⟨y, rfl⟩ : ∃ y, x = -y := ⟨-x, by omega⟩
    rw [Int.neg_tdiv, Int.tdiv_eq_ediv_of_nonneg (by omega)]
    omega

/-- The instances are read in front of whatever follows, and the line end of the last line
is left in the stream. -/
theorem restoreInstances_snapshot (port timestamp : ℕ → ℤ)
    (hsound : ∀ i ∈ instances, Sound i) (hspace : ∀ i ∈ instances, Spaceless i.host) :
    restoreInstances port timestamp instances.length
        (TextStream.of (0x0A :: (instances.flatMap snapshotInstance ++ more))) =
      (instances.map ServiceInstance.inMilliseconds, TextStream.of (0x0A :: more)) := by
  induction instances with
  | nil => rfl
  | cons i instances ih =>
    rw [List.forall_mem_cons] at hsound hspace
    obtain ⟨hi, hsound⟩ := hsound
    obtain ⟨hhost, hspace⟩ := hspace
    obtain ⟨hlo, hhi⟩ := inRange_tdiv hi.lastHeartbeat
    have htext : (0x0A : UInt8) :: ((i :: instances).flatMap snapshotInstance ++ more) =
        [0x0A] ++ (i.host ++ 0x20 :: (decimal i.port ++ 0x20 ::
          (decimal (i.lastHeartbeat.tdiv (10 ^ 6)) ++
            0x0A :: (instances.flatMap snapshotInstance ++ more)))) := by
      have hblank : utf8 " " = [0x20] := by decide
      have hline : utf8 "\n" = [0x0A] := by decide
      simp only [List.flatMap_cons, snapshotInstance, hblank, hline, List.append_assoc,
        List.cons_append, List.nil_append]
    rw [htext, List.length_cons, restoreInstances,
      TextStream.extractString_of (TextStream.isSpace_of_mem_singleton (by decide)) hi.host hhost
        (by decide)]
    simp only
    rw [TextStream.of_cons 0x20,
      TextStream.extractSigned_of (TextStream.isSpace_of_mem_singleton (by decide)) (by decide)
        hi.port.1 hi.port.2]
    simp only
    rw [TextStream.of_cons 0x20,
      TextStream.extractSigned_of (TextStream.isSpace_of_mem_singleton (by decide)) (by decide)
        hlo hhi]
    simp only
    rw [ih hsound hspace]
    rfl

/-- **The services are read back**, over whatever is there already. -/
theorem restoreServices_snapshot (u : Uninitialized)
    {walk : List (Σ _ : Bytes, List ServiceInstance)} (hnodup : walk.NodupKeys)
    (hreg : ∀ service ∈ walk, service.1 ≠ [] ∧ ∀ i ∈ service.2, Sound i)
    (hsize : ∀ service ∈ walk, service.2.length < 2 ^ 64)
    (hspace : ∀ service ∈ walk, Spaceless service.1 ∧ ∀ i ∈ service.2, Spaceless i.host)
    (services : AList fun _ : Bytes => List ServiceInstance) (name : Bytes) :
    (restoreServices u walk.length
        (TextStream.of (0x0A :: walk.flatMap snapshotService)) services).lookup name =
      ((walk.dlookup name).map (List.map ServiceInstance.inMilliseconds)).or
        (services.lookup name) := by
  induction walk generalizing services with
  | nil => rfl
  | cons service walk ih =>
    obtain ⟨serviceName, instances⟩ := service
    obtain ⟨hkey, hnodup⟩ := List.nodupKeys_cons.mp hnodup
    rw [List.forall_mem_cons] at hreg hsize hspace
    obtain ⟨⟨hname, hsound⟩, hreg⟩ := hreg
    obtain ⟨hlen, hsize⟩ := hsize
    obtain ⟨⟨hnameSpace, hhostSpace⟩, hspace⟩ := hspace
    have htext : (0x0A : UInt8) :: (⟨serviceName, instances⟩ :: walk).flatMap snapshotService =
        [0x0A] ++ (serviceName ++ 0x20 :: (decimalNat instances.length ++
          0x0A :: (instances.flatMap snapshotInstance ++ walk.flatMap snapshotService))) := by
      have hblank : utf8 " " = [0x20] := by decide
      have hline : utf8 "\n" = [0x0A] := by decide
      simp only [List.flatMap_cons, snapshotService, hblank, hline, List.append_assoc,
        List.cons_append, List.nil_append]
    rw [htext, List.length_cons, restoreServices,
      TextStream.extractString_of (TextStream.isSpace_of_mem_singleton (by decide)) hname
        hnameSpace (by decide)]
    simp only
    rw [TextStream.of_cons 0x20,
      TextStream.extractUnsigned_of (TextStream.isSpace_of_mem_singleton (by decide)) (by decide)
        hlen]
    simp only
    rw [restoreInstances_snapshot _ _ hsound hhostSpace, ih hnodup hreg hsize hspace]
    by_cases h : name = serviceName
    · subst h
      -- the name occurs nowhere else
      rw [List.dlookup_eq_none.mpr hkey, AList.lookup_insert, List.dlookup_cons_eq]
      rfl
    · rw [AList.lookup_insert_ne h, List.dlookup_cons_ne _ _ h]

/-- A snapshot of services without whitespace restores the machine. -/
theorem restores_of_spaceless (u : Uninitialized) {m : RegistryStateMachine}
    (prior : RegistryStateMachine) (hreg : m.Registered) (hsize : m.Sized)
    (hspace : m.SpacelessNames) {walk : List (Σ _ : Bytes, List ServiceInstance)}
    (hwalk : walk.Perm m.services.entries) :
    m.Restores (restoreFromSnapshot u prior (getSnapshot walk)) := by
  intro name
  have hline : utf8 "\n" = [0x0A] := by decide
  have htext : getSnapshot walk =
      [] ++ (decimalNat walk.length ++ 0x0A :: walk.flatMap snapshotService) := by
    simp only [getSnapshot, hline, List.append_assoc, List.cons_append, List.nil_append]
  have hcount : walk.length < 2 ^ 64 := hwalk.length_eq ▸ hsize.1
  have hnodup : walk.NodupKeys := (List.perm_nodupKeys hwalk).mpr m.services.nodupKeys
  rw [restoreFromSnapshot, htext,
    TextStream.extractUnsigned_of (List.forall_mem_nil _) (by decide) hcount]
  simp only
  rw [restoreServices_snapshot u hnodup (fun s hs => hreg s (hwalk.subset hs))
    (fun s hs => hsize.2 s (hwalk.subset hs)) (fun s hs => hspace s (hwalk.subset hs)),
    AList.lookup_empty, Option.or_none, List.perm_dlookup name hnodup hwalk]
  rfl

end RoundTrip

/-! ### Nothing with whitespace is read -/

theorem spaceless_restoreInstances (port timestamp : ℕ → ℤ) (count : ℕ) (s : TextStream) :
    ∀ i ∈ (restoreInstances port timestamp count s).1, Spaceless i.host := by
  induction count generalizing s with
  | zero => exact fun i hi => absurd hi List.not_mem_nil
  | succ count ih =>
    rw [restoreInstances]
    refine List.forall_mem_cons.mpr ⟨?_, ih _⟩
    exact s.spaceless_extractString spaceless_nil

/-- **No name and no host that is read has whitespace in it**, whatever the text. -/
theorem spaceless_restoreServices (u : Uninitialized) (count : ℕ) (s : TextStream)
    {services : AList fun _ : Bytes => List ServiceInstance}
    (h : SpacelessNames { services := services }) :
    SpacelessNames { services := restoreServices u count s services } := by
  induction count generalizing s services with
  | zero => exact h
  | succ count ih =>
    rw [restoreServices]
    refine ih _ ?_
    exact AllServices.insert h (s.spaceless_extractString spaceless_nil)
      (spaceless_restoreInstances _ _ _ _)

/-- What is restored from something has its names. -/
theorem Restores.spacelessNames {m m' : RegistryStateMachine} (h : m.Restores m')
    (h' : m'.SpacelessNames) : m.SpacelessNames := by
  intro service hmem
  have hlookup : m.services.lookup service.1 = some service.2 := AList.mem_lookup_iff.mpr hmem
  have hrestored := h service.1
  rw [hlookup, Option.map_some] at hrestored
  obtain ⟨hname, hhosts⟩ := h' _ (AList.mem_lookup_iff.mp hrestored)
  refine ⟨hname, ?_⟩
  intro i hi
  exact hhosts i.inMilliseconds (List.mem_map_of_mem hi)

/-- **When a snapshot restores the machine**: just if no name of a service and no host has
whitespace in it.  This holds of every machine that was changed in admitted ways only, of
every order in which its map is walked, and whatever the restoring machine held. -/
theorem snapshot_restores_iff (u : Uninitialized) (prior : RegistryStateMachine)
    {changes : List Change} (hchanges : ∀ c ∈ changes, c.Admitted)
    (hsize : (changes.foldl change {}).Sized)
    {walk : List (Σ _ : Bytes, List ServiceInstance)}
    (hwalk : walk.Perm (changes.foldl change {}).services.entries) :
    (changes.foldl change {}).Restores (restoreFromSnapshot u prior (getSnapshot walk)) ↔
      (changes.foldl change {}).SpacelessNames := by
  constructor
  · intro h
    exact h.spacelessNames (spaceless_restoreServices u _ _ allServices_empty)
  · intro hspace
    exact restores_of_spaceless u prior (registered_foldl allServices_empty hchanges) hsize hspace
      hwalk

/-- A machine with one instance of the service. -/
def sampleMachine (serviceName : Bytes) : RegistryStateMachine :=
  [Change.register serviceName (utf8 "localhost") 8080 5000000].foldl change {}

theorem snapshot_restores_sample :
    (sampleMachine (utf8 "echo")).Restores
      (restoreFromSnapshot ⟨0, fun _ => 0, fun _ _ => 0, fun _ _ => 0⟩ {}
        (getSnapshot (sampleMachine (utf8 "echo")).services.entries)) :=
  (@snapshot_restores_iff _ _ [.register (utf8 "echo") (utf8 "localhost") 8080 5000000]
    (by decide) ⟨by decide, by decide⟩ _ (List.Perm.refl _)).mpr (by decide)

/-- A name of two words is taken for a name and a count. -/
theorem sampleBlank_notRestored :
    ¬ (sampleMachine (utf8 "echo service")).Restores
      (restoreFromSnapshot ⟨0, fun _ => 0, fun _ _ => 0, fun _ _ => 0⟩ {}
        (getSnapshot (sampleMachine (utf8 "echo service")).services.entries)) := by
  intro h
  exact absurd (h (utf8 "echo service")) (by decide)

end RegistryStateMachine
