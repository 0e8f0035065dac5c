import Mathlib.Data.Finset.Basic
import Mathlib.Data.List.AList
import RpcFramework.Common.EpollStream
import RpcFramework.Lib.Transition

/-!
# The connections of the event loop

The event loop accepts connections, reads from them and closes them; the map holds those it
has, a counter counts them and admits new ones, and a callback is told of each that is closed.
`stop` closes the descriptors of all that are left, and empties the map.

A connection is known to the code by its descriptor, a number that the kernel gives out again
once it is closed.  Here each also has a number of its own, by the order of acceptance.

## Main definitions

* `EventLoop.State`, `EventLoop.Action`, `EventLoop.step` — the system `eventLoop`.
* `EventLoop.Accounted` — the counter is the size of the map and within the limit, and once the
  server has stopped the callback was told of each connection once.
* `EventLoop.NoneLeft` — `stop` finds no connection.

## Main results

* `EventLoop.Invariant.step` — what every step of the loop keeps.
* `EventLoop.eventLoop_accounted_of_running` — **all is accounted for until the server stops.**
* `EventLoop.eventLoop_accounted_iff` — **the runs in which all connections are accounted for.**
-/

namespace AList

variable {α : Type*} {β : α → Type*}

theorem length_keys (s : AList β) : s.keys.length = s.entries.length := List.length_map _

variable [DecidableEq α]

/-- An entry, and the others. -/
theorem entries_perm_of_lookup {a : α} {b : β a} {s : AList β} (h : s.lookup a = some b) :
    s.entries.Perm (⟨a, b⟩ :: (s.erase a).entries) := by
  have hmem : a ∈ s.keys := mem_keys.mp (lookup_isSome.mp (Option.isSome_of_mem h))
  obtain ⟨b', l₁, l₂, hl₁, heq, herase⟩ := List.exists_of_kerase hmem
  have hb : (⟨a, b'⟩ : Sigma β) ∈ s.entries := heq ▸ List.mem_append_right _ List.mem_cons_self
  obtain rfl : b' = b := Option.some.inj ((mem_lookup_iff.mpr hb).symm.trans h)
  rw [show (s.erase a).entries = l₁ ++ l₂ from herase, heq]
  exact List.perm_middle

theorem entries_insert_eq (a : α) (b : β a) (s : AList β) :
    (s.insert a b).entries = ⟨a, b⟩ :: (s.erase a).entries := rfl

end AList

namespace EventLoop

/-- The limit, and which of the handlers were set. -/
structure Config where
  maxConnections : UInt64 := 10000
  connectionHandler : Bool := true
  connectionCloseHandler : Bool := true

/-- A `ClientConnection`, and the number of it. -/
structure ClientConnection where
  id : ℕ
  receiveBuffer : Bytes := []
  closed : Bool := false
  deriving DecidableEq, Repr

structure State where
  running : Bool := true
  listenFd : Option ℕ
  epollFd : Option ℕ
  /-- The kernel's: the descriptors that are open. -/
  descriptors : Finset ℕ
  connections : AList (fun _ : ℕ => ClientConnection) := ∅
  totalConnections : UInt64 := 0
  activeConnections : UInt64 := 0
  totalRequests : UInt64 := 0
  bytesReceived : UInt64 := 0
  /-- What the thread pool was given: descriptors and messages. -/
  tasks : List (ℕ × Bytes) := []
  /-- How many connections were put into the map. -/
  installed : ℕ := 0
  /-- The descriptors the callback was told of, each with the number of its connection. -/
  callbacks : List (ℕ × ℕ) := []

/-- `connections_.size()`. -/
def State.size (s : State) : ℕ := s.connections.keys.length

/-- What an `accept` returned, and whether the calls that prepare the descriptor succeed. -/
structure Accept where
  fd : ℕ
  nonBlocking : Bool := true
  added : Bool := true

/-- What ends the loop over `recv`. -/
inductive Received where
  | wouldBlock
  | endOfStream
  | failed

/-- An event, and what the system calls return when it is handled. -/
structure Event where
  fd : ℕ
  readable : Bool := true
  writable : Bool := false
  hungUp : Bool := false
  accepts : List Accept := []
  chunks : List Bytes := []
  last : Received := .wouldBlock

inductive Action where
  | event (e : Event)
  | stop

section Step

variable (config : Config) (s : State)

/-- The kernel's `close`. -/
def close (fd : ℕ) : State := { s with descriptors := s.descriptors.erase fd }

/-- A round of the loop of `handleNewConnection`. -/
def acceptClient (a : Accept) : Option State :=
  -- the kernel picks any number that is not open
  if a.fd ∈ s.descriptors then none
  else
    let s := { s with descriptors := insert a.fd s.descriptors }
    if config.maxConnections ≤ s.activeConnections then some (close s a.fd)
    else if a.nonBlocking = false then some (close s a.fd)
    else if a.added = false then some (close s a.fd)
    else
      some
        { s with
          connections := s.connections.insert a.fd { id := s.installed }
          installed := s.installed + 1
          totalConnections := s.totalConnections + 1
          activeConnections := s.activeConnections + 1 }

/-- `handleNewConnection`, up to the `accept` that fails. -/
def handleNewConnection (accepts : List Accept) : Option State :=
  accepts.foldlM (acceptClient config) s

/-- `closeConnection`; the object itself, marked closed, is in no map any more. -/
def closeConnection (fd : ℕ) : State :=
  match s.connections.lookup fd with
  | none => s
  | some conn =>
      if conn.closed then s
      else
        let s := close { s with connections := s.connections.erase fd } fd
        { s with
          activeConnections := s.activeConnections - 1
          callbacks :=
            if config.connectionCloseHandler then (fd, conn.id) :: s.callbacks else s.callbacks }

/-- `handleClientData`: the loop over `recv`, and what its end comes to. -/
def handleClientData (fd : ℕ) (chunks : List Bytes) (last : Received) : State :=
  match s.connections.lookup fd with
  | none => s
  | some conn =>
      if conn.closed then s
      else
        let (messages, rest) := EpollServer.handleClientData conn.receiveBuffer chunks
        let s :=
          { s with
            connections := s.connections.insert fd { conn with receiveBuffer := rest }
            totalRequests := s.totalRequests + UInt64.ofNat messages.length
            bytesReceived := s.bytesReceived + UInt64.ofNat chunks.flatten.length
            tasks :=
              if config.connectionHandler then s.tasks ++ messages.map fun message => (fd, message)
              else s.tasks }
        match last with
        | .wouldBlock => s
        | .endOfStream | .failed => closeConnection config s fd

/-- The dispatch of `run`. -/
def handleEvent (e : Event) : Option State :=
  if s.listenFd = some e.fd then
    if e.readable then handleNewConnection config s e.accepts else some s
  else if e.readable then some (handleClientData config s e.fd e.chunks e.last)
  -- `handleClientWrite` does nothing
  else if e.writable then some s
  else if e.hungUp then some (closeConnection config s e.fd)
  else some s

/-- `stop`. -/
def stop : State :=
  if s.running then
    { s with
      running := false
      descriptors :=
        s.descriptors \ (s.connections.keys ++ s.epollFd.toList ++ s.listenFd.toList).toFinset
      connections := ∅
      epollFd := none
      listenFd := none }
  else s

/-- One event, while the server runs, or the end; what `recv` returns is not empty. -/
def step : Action → Option State
  | .event e =>
      if s.running ∧ ∀ chunk ∈ e.chunks, chunk ≠ [] then handleEvent config s e else none
  | .stop => some (stop s)

/-- The server when `start` has returned. -/
def eventLoop (listenFd epollFd : ℕ) : System State Action where
  init := { listenFd := some listenFd, epollFd := some epollFd, descriptors := {listenFd, epollFd} }
  step := step config

/-- The counter is the size of the map and within the limit, and once the server has stopped
the callback was told of each connection once. -/
structure Accounted : Prop where
  active : s.activeConnections.toNat = s.size
  limit : s.activeConnections ≤ config.maxConnections
  callbacks : s.running = false → ∀ id < s.installed, s.callbacks.countP (·.2 = id) = 1

/-- `stop` finds no connection. -/
def NoneLeft : Action → Prop
  | .event _ => True
  | .stop => s.running = true → s.size = 0

instance instDecidableNoneLeft (a : Action) : Decidable (NoneLeft s a) :=
  match a with
  | .event _ => inferInstanceAs (Decidable True)
  | .stop => inferInstanceAs (Decidable (_ → _))

end Step

/-! ### What the handlers do -/

section Cases

variable {config : Config} {s t : State}

/-- Nothing, or the connection goes and the callback is told. -/
theorem closeConnection_cases (s : State) (fd : ℕ)
    (hset : config.connectionCloseHandler = true) :
    closeConnection config s fd = s ∨ ∃ conn, s.connections.lookup fd = some conn ∧
      closeConnection config s fd =
        { s with
          descriptors := s.descriptors.erase fd
          connections := s.connections.erase fd
          activeConnections := s.activeConnections - 1
          callbacks := (fd, conn.id) :: s.callbacks } := by
  cases hconn : s.connections.lookup fd with
  | none => exact .inl (by rw [closeConnection, hconn])
  | some conn =>
    cases hclosed : conn.closed with
    | true => exact .inl (by simp only [closeConnection, hconn, hclosed, if_true])
    | false =>
      refine .inr ⟨conn, rfl, ?_⟩
      simp only [closeConnection, hconn, hclosed, hset, Bool.false_eq_true, if_false, if_true,
        close]

/-- A descriptor that is opened and closed again leaves all as it was. -/
theorem close_opened {fd : ℕ} (hfd : fd ∉ s.descriptors) :
    close { s with descriptors := insert fd s.descriptors } fd = s := by
  rw [close, Finset.erase_insert hfd]

/-- The descriptor is new, and it is closed again, or below the limit it is a connection. -/
theorem acceptClient_cases {a : Accept} (hstep : acceptClient config s a = some t) :
    a.fd ∉ s.descriptors ∧ (t = s ∨ s.activeConnections < config.maxConnections ∧
      t =
        { s with
          descriptors := insert a.fd s.descriptors
          connections := s.connections.insert a.fd { id := s.installed }
          installed := s.installed + 1
          totalConnections := s.totalConnections + 1
          activeConnections := s.activeConnections + 1 }) := by
  simp only [acceptClient, Option.ite_none_left_eq_some] at hstep
  obtain ⟨hfd, hstep⟩ := hstep
  rw [close_opened hfd] at hstep
  refine ⟨hfd, ?_⟩
  split at hstep
  · exact .inl (Option.some.inj hstep).symm
  · next hlimit =>
    split at hstep
    · exact .inl (Option.some.inj hstep).symm
    · split at hstep
      · exact .inl (Option.some.inj hstep).symm
      · exact .inr ⟨UInt64.not_le.mp hlimit, (Option.some.inj hstep).symm⟩

theorem stop_of_stopped (hstopped : s.running = false) : stop s = s := by
  rw [stop, if_neg (by rw [hstopped]; exact Bool.false_ne_true)]

theorem running_stop (s : State) : (stop s).running = false := by
  cases hrunning : s.running with
  | false => rw [stop_of_stopped hrunning, hrunning]
  | true => rw [stop, if_pos hrunning]

/-- Events are handled while the server runs. -/
theorem step_event {e : Event} (hstep : step config s (.event e) = some t) :
    s.running = true ∧ handleEvent config s e = some t := by
  obtain ⟨⟨hrunning, -⟩, hstep⟩ := Option.ite_none_right_eq_some.mp hstep
  exact ⟨hrunning, hstep⟩

end Cases

/-! ### What the loop keeps -/

/-- The connections numbered `id` among those in the map. -/
def State.census (s : State) (id : ℕ) : ℕ := s.connections.entries.countP (·.2.id = id)

/-- What holds while the server runs.  Each connection there was is in the map, or the callback
was told of it. -/
structure Invariant (config : Config) (s : State) : Prop where
  running : s.running = true
  active : s.activeConnections.toNat = s.size
  limit : s.activeConnections ≤ config.maxConnections
  descriptors : ∀ fd ∈ s.connections, fd ∈ s.descriptors
  once : ∀ id, s.callbacks.countP (·.2 = id) + s.census id = if id < s.installed then 1 else 0

theorem size_of_lookup {s : State} {fd : ℕ} {conn : ClientConnection}
    (h : s.connections.lookup fd = some conn) :
    s.size = (s.connections.erase fd).keys.length + 1 := by
  rw [State.size, AList.length_keys, AList.length_keys,
    (AList.entries_perm_of_lookup h).length_eq, List.length_cons]

theorem census_of_lookup {s : State} {fd : ℕ} {conn : ClientConnection}
    (h : s.connections.lookup fd = some conn) (id : ℕ) :
    s.census id = (s.connections.erase fd).entries.countP (·.2.id = id) +
      if conn.id = id then 1 else 0 := by
  rw [State.census, (AList.entries_perm_of_lookup h).countP_eq, List.countP_cons]
  simp only [decide_eq_true_eq]

section Invariant

variable {config : Config} {s t : State}

theorem invariant_init (config : Config) (listenFd epollFd : ℕ) :
    Invariant config (eventLoop config listenFd epollFd).init where
  running := rfl
  active := rfl
  limit := UInt64.zero_le
  descriptors fd hfd := absurd hfd (AList.notMem_empty fd)
  once _ := rfl

theorem Invariant.closeConnection (h : Invariant config s)
    (hset : config.connectionCloseHandler = true) (fd : ℕ) :
    Invariant config (closeConnection config s fd) := by
  rcases closeConnection_cases s fd hset with hsame | ⟨conn, hconn, hclose⟩
  · rw [hsame]
    exact h
  have hsize := size_of_lookup hconn
  have hpos : (1 : UInt64) ≤ s.activeConnections := by
    rw [UInt64.le_iff_toNat_le, h.active, hsize]
    exact Nat.le_add_left _ _
  have hless : (s.activeConnections - 1).toNat = (s.connections.erase fd).keys.length := by
    rw [UInt64.toNat_sub_of_le _ _ hpos, h.active, hsize]
    rfl
  rw [hclose]
  refine ⟨h.running, hless, ?_, fun fd' hfd' => ?_, fun id => ?_⟩
  · have hlimit := h.limit
    rw [UInt64.le_iff_toNat_le, h.active, hsize] at hlimit
    exact UInt64.le_iff_toNat_le.mpr (hless ▸ (Nat.le_succ _).trans hlimit)
  · obtain ⟨hne, hmem⟩ := AList.mem_erase.mp hfd'
    exact Finset.mem_erase.mpr ⟨hne, h.descriptors fd' hmem⟩
  · have honce := h.once id
    rw [census_of_lookup hconn] at honce
    simp only [List.countP_cons, decide_eq_true_eq, State.census]
    omega

/-- Reading changes what is in a buffer. -/
theorem Invariant.receive (h : Invariant config s) {fd : ℕ} {conn : ClientConnection}
    (conn' : ClientConnection) (hconn : s.connections.lookup fd = some conn)
    (hid : conn'.id = conn.id)
    (totalRequests bytesReceived : UInt64) (tasks : List (ℕ × Bytes)) :
    Invariant config
      { s with
        connections := s.connections.insert fd conn'
        totalRequests := totalRequests
        bytesReceived := bytesReceived
        tasks := tasks } := by
  refine ⟨h.running, ?_, h.limit, fun fd' hfd' => ?_, fun id => ?_⟩
  · rw [h.active, size_of_lookup hconn, State.size, AList.length_keys, AList.length_keys,
      AList.entries_insert_eq, List.length_cons]
  · rcases (AList.mem_insert _).mp hfd' with rfl | hmem
    · exact h.descriptors fd' (AList.lookup_isSome.mp (Option.isSome_of_mem hconn))
    · exact h.descriptors fd' hmem
  · rw [← h.once id, census_of_lookup hconn]
    simp only [State.census, AList.entries_insert_eq, List.countP_cons, hid, decide_eq_true_eq]

theorem Invariant.handleClientData (h : Invariant config s)
    (hset : config.connectionCloseHandler = true) (fd : ℕ) (chunks : List Bytes)
    (last : Received) : Invariant config (handleClientData config s fd chunks last) := by
  rw [EventLoop.handleClientData]
  split
  · exact h
  · next conn hconn =>
    split
    · exact h
    · have hread := h.receive
        { conn with
          receiveBuffer := (EpollServer.handleClientData conn.receiveBuffer chunks).2 } hconn rfl
      cases last with
      | wouldBlock => exact hread _ _ _
      | endOfStream | failed => exact (hread _ _ _).closeConnection hset fd

theorem Invariant.acceptClient (h : Invariant config s) {a : Accept}
    (hstep : acceptClient config s a = some t) : Invariant config t := by
  obtain ⟨hfd, rfl | ⟨hlimit, rfl⟩⟩ := acceptClient_cases hstep
  · exact h
  have hfresh : a.fd ∉ s.connections := fun hmem => hfd (h.descriptors a.fd hmem)
  have hmore : (s.activeConnections + 1).toNat = s.activeConnections.toNat + 1 := by
    rw [UInt64.lt_iff_toNat_lt] at hlimit
    have hmax := config.maxConnections.toNat_lt
    rw [UInt64.toNat_add, UInt64.toNat_one, Nat.mod_eq_of_lt (by omega)]
  refine ⟨h.running, ?_, ?_, fun fd' hfd' => ?_, fun id => ?_⟩
  · rw [hmore, h.active, State.size, State.size, AList.length_keys, AList.length_keys,
      AList.entries_insert_of_notMem hfresh, List.length_cons]
  · rw [UInt64.lt_iff_toNat_lt] at hlimit
    rw [UInt64.le_iff_toNat_le, hmore]
    exact hlimit
  · rcases (AList.mem_insert _).mp hfd' with rfl | hmem
    · exact Finset.mem_insert_self _ _
    · exact Finset.mem_insert_of_mem (h.descriptors fd' hmem)
  · have honce := h.once id
    simp only [State.census, AList.entries_insert_of_notMem hfresh, List.countP_cons,
      decide_eq_true_eq] at honce ⊢
    by_cases hid : s.installed = id
    · -- the connection that is new
      subst hid
      rw [if_neg (lt_irrefl _)] at honce
      rw [if_pos rfl, if_pos (Nat.lt_succ_self _)]
      omega
    · have hlt : id < s.installed + 1 ↔ id < s.installed := by omega
      rw [if_neg hid, add_zero, honce]
      simp only [hlt]

theorem Invariant.handleEvent (h : Invariant config s)
    (hset : config.connectionCloseHandler = true) {e : Event}
    (hstep : handleEvent config s e = some t) : Invariant config t := by
  rw [EventLoop.handleEvent] at hstep
  split at hstep
  · split at hstep
    · -- the loop over `accept` is a run of its rounds
      exact System.exec_invariant (S := ⟨s, EventLoop.acceptClient config⟩)
        (fun _ _ _ hs ht => hs.acceptClient ht) h hstep
    · exact Option.some.inj hstep ▸ h
  · split at hstep
    · exact Option.some.inj hstep ▸ h.handleClientData hset _ _ _
    · split at hstep
      · exact Option.some.inj hstep ▸ h
      · split at hstep
        · exact Option.some.inj hstep ▸ h.closeConnection hset _
        · exact Option.some.inj hstep ▸ h

theorem Invariant.of_running (h : Invariant config s ∨ s.running = false)
    (hrunning : s.running = true) : Invariant config s :=
  h.resolve_right fun hstopped => Bool.false_ne_true (hstopped.symm.trans hrunning)

/-- **Every step of the loop keeps this**, and without one the server has stopped. -/
theorem Invariant.step (h : Invariant config s ∨ s.running = false)
    (hset : config.connectionCloseHandler = true) {a : Action}
    (hstep : step config s a = some t) : Invariant config t ∨ t.running = false := by
  cases a with
  | event e =>
    obtain ⟨hrunning, hstep⟩ := step_event hstep
    exact .inl ((Invariant.of_running h hrunning).handleEvent hset hstep)
  | stop =>
    rw [← Option.some.inj hstep]
    exact .inr (running_stop s)

/-- While the server runs all is accounted for. -/
theorem Invariant.accounted (h : Invariant config s) : Accounted config s where
  active := h.active
  limit := h.limit
  callbacks hstopped := absurd (hstopped.symm.trans h.running) Bool.false_ne_true

/-- When it stops, all is so just if nothing is left. -/
theorem Invariant.accounted_stop_iff (h : Invariant config s) :
    Accounted config (stop s) ↔ s.size = 0 := by
  rw [stop, if_pos h.running]
  constructor
  · intro haccounted
    exact h.active.symm.trans haccounted.active
  · intro hnone
    refine ⟨h.active.trans hnone, h.limit, fun _ id hid => ?_⟩
    have hentries : s.connections.entries = [] := by
      rw [← List.length_eq_zero_iff, ← AList.length_keys]
      exact hnone
    have honce := h.once id
    rw [State.census, hentries, List.countP_nil, add_zero, if_pos hid] at honce
    exact honce

/-- The steps to a state in which all is accounted for. -/
theorem Invariant.noneLeft_iff (h : Invariant config s ∨ s.running = false)
    (hset : config.connectionCloseHandler = true) (haccounted : Accounted config s) {a : Action}
    (hstep : EventLoop.step config s a = some t) : NoneLeft s a ↔ Accounted config t := by
  cases a with
  | event e =>
    obtain ⟨hrunning, hstep⟩ := step_event hstep
    have ht := (Invariant.of_running h hrunning).handleEvent hset hstep
    exact iff_of_true trivial ht.accounted
  | stop =>
    rw [← Option.some.inj hstep]
    rcases h with h | hstopped
    · rw [h.accounted_stop_iff]
      exact ⟨fun hnone => hnone h.running, fun hnone _ => hnone⟩
    · rw [stop_of_stopped hstopped]
      refine iff_of_true (fun hrunning => ?_) haccounted
      exact absurd (hstopped.symm.trans hrunning) Bool.false_ne_true

/-- **Until the server stops** all is accounted for, in every run. -/
theorem eventLoop_accounted_of_running (hset : config.connectionCloseHandler = true)
    {listenFd epollFd : ℕ} {as : List Action}
    (h : (eventLoop config listenFd epollFd).exec (eventLoop config listenFd epollFd).init as =
      some s) (hrunning : s.running = true) : Accounted config s := by
  have hreached : Invariant config s ∨ s.running = false :=
    System.reachable_invariant (I := fun s => Invariant config s ∨ s.running = false)
      (.inl (invariant_init config listenFd epollFd))
      (fun s a t hs hstep => Invariant.step hs hset hstep) h
  exact (Invariant.of_running hreached hrunning).accounted

end Invariant

/-- **All connections are accounted for**, in every state that is passed through, in just the runs
in which every `stop` finds none. -/
theorem eventLoop_accounted_iff {config : Config} (hset : config.connectionCloseHandler = true)
    {listenFd epollFd : ℕ} {as : List Action} {s : State}
    (h : (eventLoop config listenFd epollFd).exec (eventLoop config listenFd epollFd).init as =
      some s) :
    (∀ u ∈ (eventLoop config listenFd epollFd).visited (eventLoop config listenFd epollFd).init as,
        Accounted config u) ↔
      ((eventLoop config listenFd epollFd).restrict NoneLeft).exec
        (eventLoop config listenFd epollFd).init as = some s := by
  have hinit := invariant_init config listenFd epollFd
  refine System.exec_restrict_iff_of_invariant
    (I := fun s => Invariant config s ∨ s.running = false) ?_ ?_ (.inl hinit) hinit.accounted h
  · intro s a t hs hstep
    exact Invariant.step hs hset hstep
  · intro s a t hs haccounted hstep
    exact Invariant.noneLeft_iff hs hset haccounted hstep

/-- A client connects, on a descriptor that was the number of an earlier one, and goes; then the
server stops. -/
def sampleRun : List Action :=
  [.event { fd := 3, accepts := [{ fd := 5 }] }, .event { fd := 5, last := .endOfStream },
    .event { fd := 3, accepts := [{ fd := 5 }] },
    .event { fd := 5, readable := false, hungUp := true }, .stop]

theorem eventLoop_accounted_sample : ∃ s,
    (eventLoop {} 3 4).exec (eventLoop {} 3 4).init sampleRun = some s ∧ s.installed = 2 ∧
      ∀ u ∈ (eventLoop {} 3 4).visited (eventLoop {} 3 4).init sampleRun, Accounted {} u := by
  obtain ⟨s, hs, hinstalled⟩ := System.exists_exec_of_any ((eventLoop {} 3 4).restrict NoneLeft)
    (eventLoop {} 3 4).init sampleRun (fun s => s.installed == 2) (by decide +kernel)
  have hrun := System.exec_restrict hs
  exact ⟨s, hrun, eq_of_beq hinstalled, (eventLoop_accounted_iff rfl hrun).mpr hs⟩

/-- A server that stops while a client is connected counts it still, and never tells the
callback. -/
theorem sampleStop_unaccounted : ∃ s,
    (eventLoop {} 3 4).exec (eventLoop {} 3 4).init
        [.event { fd := 3, accepts := [{ fd := 5 }] }, .stop] = some s ∧
      s.activeConnections = 1 ∧ s.size = 0 ∧ s.callbacks = [] ∧ ¬ Accounted {} s := by
  obtain ⟨s, hs, htest⟩ := System.exists_exec_of_any (eventLoop {} 3 4) (eventLoop {} 3 4).init
    [.event { fd := 3, accepts := [{ fd := 5 }] }, .stop]
    (fun s => decide (s.activeConnections = 1 ∧ s.size = 0 ∧ s.callbacks = [])) (by decide +kernel)
  obtain ⟨hactive, hsize, hcallbacks⟩ := of_decide_eq_true htest
  refine ⟨s, hs, hactive, hsize, hcallbacks, fun haccounted => ?_⟩
  have hcount := haccounted.active
  rw [hactive, hsize] at hcount
  exact absurd hcount (by decide)

end EventLoop
