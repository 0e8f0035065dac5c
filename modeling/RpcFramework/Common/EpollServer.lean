import RpcFramework.Common.EpollStream
import RpcFramework.Lib.Transition
import RpcFramework.Server.RpcCall

/-!
# The event loop, the pool and the connections

`EpollServer` knows a connection by its descriptor: the event loop queues a request
together with the descriptor it was read from, and whichever worker has computed the
response looks the descriptor up and writes to it.  The kernel hands out the number
of a closed descriptor again, and nothing in a queued request says which of the
connections that bore the number it came from.

Here a connection is what the kernel's `accept` returned, one after the other, and the
state holds both what the kernel makes of a descriptor and what the server's map holds
under it.  The event loop is one thread, so it accepts, installs, reads and closes one
after the other; the workers take their steps in between.  So does whatever else in the
process opens descriptors, such as the server's own connections to the registry: what it
opens is numbered like a connection, but is never in the map.

## Main definitions

* `EpollServer.State`, `EpollServer.Action`, `EpollServer.step` — the server, its kernel
  and its clients.
* `EpollServer.system` — the transition system, for given handlers.
* `EpollServer.ResponsesStayHome` — what is written to a connection, and what its client
  returns, was computed for a request that arrived on it.
* `EpollServer.FdUnclaimed` — no pending request holds a number the kernel hands out.

## Main results

* `EpollServer.responsesStayHome` — **it holds in every run in which no descriptor is opened
  under a number that a pending request holds.**
* `EpollServer.sample_leak` — in the others it may fail.
-/

namespace EpollServer

open RpcServer

/-- A request on its way through the pool: the descriptor and the message the task holds,
and the connection the message was read from, which the task does not hold. -/
structure Task where
  fd : ℕ
  message : Bytes
  origin : ℕ
  deriving DecidableEq, Repr

/-- A response on its way to a descriptor. -/
structure Write where
  task : Task
  data : Bytes
  deriving DecidableEq, Repr

/-- A `ClientConnection`, with the connection it was made for. -/
structure ClientConnection where
  id : ℕ
  receiveBuffer : Bytes := []
  deriving DecidableEq, Repr

/-- Where the event loop stands: between events, behind `accept`, or behind the erasure
of `closeConnection`. -/
inductive Loop where
  | ready
  | accepted (fd : ℕ)
  | erased (fd : ℕ)
  deriving DecidableEq, Repr

structure State where
  /-- The kernel's table: the connection an open descriptor belongs to. -/
  descriptors : ℕ → Option ℕ := fun _ => none
  /-- The number of connections accepted, and of other descriptors opened, so far. -/
  accepted : ℕ := 0
  /-- `connections_`. -/
  connections : ℕ → Option ClientConnection := fun _ => none
  loop : Loop := .ready
  /-- The pool's queue, the tasks whose handler runs, and those that have found a
  connection in `sendResponse` and not written yet. -/
  queued : List Task := []
  running : List Task := []
  sending : List Write := []
  /-- What was written to each connection. -/
  written : ℕ → List Write := fun _ => []
  /-- How much of it its client has read, and what the client's calls returned. -/
  read : ℕ → ℕ := fun _ => 0
  returned : List (ℕ × Write × Except Bytes Bytes) := []

inductive Action where
  | accept (fd : ℕ)
  | install
  | reject
  | receive (fd : ℕ) (chunk : Bytes)
  | erase (fd : ℕ)
  | close
  | openOther (fd : ℕ)
  | closeOther (fd : ℕ)
  | dequeue
  | complete (i : ℕ)
  | send (i : ℕ)
  | clientReceive (conn : ℕ)
  deriving DecidableEq, Repr

/-- The tasks that are still going to look a descriptor up, or to write to it. -/
def State.pending (s : State) : List Task := s.queued ++ s.running ++ s.sending.map Write.task

/-- One step. -/
def step (handlers : Handlers) (s : State) : Action → Option State
  | .accept fd =>
      -- `handleNewConnection`: the kernel picks any number that is not open
      if s.loop = .ready ∧ s.descriptors fd = none then
        some
          { s with
            descriptors := Function.update s.descriptors fd (some s.accepted)
            accepted := s.accepted + 1
            loop := .accepted fd }
      else none
  | .install =>
      match s.loop with
      | .accepted fd =>
          (s.descriptors fd).map fun id =>
            { s with
              connections := Function.update s.connections fd (some { id := id })
              loop := .ready }
      | _ => none
  | .reject =>
      -- over the limit, or a system call failed
      match s.loop with
      | .accepted fd =>
          some { s with descriptors := Function.update s.descriptors fd none, loop := .ready }
      | _ => none
  | .receive fd chunk =>
      -- a round of the loop of `handleClientData`
      match s.loop, s.connections fd, s.descriptors fd with
      | .ready, some conn, some id =>
          if chunk = [] then none
          else
            let (messages, rest) := extractMessages (conn.receiveBuffer ++ chunk)
            some
              { s with
                connections :=
                  Function.update s.connections fd (some { conn with receiveBuffer := rest })
                queued := s.queued ++ messages.map fun message => ⟨fd, message, id⟩ }
      | _, _, _ => none
  | .erase fd =>
      -- `closeConnection` up to the end of its lock
      match s.loop, s.connections fd with
      | .ready, some _ =>
          some { s with connections := Function.update s.connections fd none, loop := .erased fd }
      | _, _ => none
  | .close =>
      match s.loop with
      | .erased fd =>
          some { s with descriptors := Function.update s.descriptors fd none, loop := .ready }
      | _ => none
  | .openOther fd =>
      -- another part of the process opens a socket or a file
      if s.descriptors fd = none then
        some
          { s with
            descriptors := Function.update s.descriptors fd (some s.accepted)
            accepted := s.accepted + 1 }
      else none
  | .closeOther fd =>
      -- it closes what is its own: not a connection, and not one on its way in or out
      if s.connections fd = none ∧ s.loop ≠ .accepted fd ∧ s.loop ≠ .erased fd then
        some { s with descriptors := Function.update s.descriptors fd none }
      else none
  | .dequeue =>
      match s.queued with
      | task :: rest => some { s with queued := rest, running := s.running ++ [task] }
      | [] => none
  | .complete i =>
      -- the handler has returned, and `sendResponse` looks the descriptor up
      match s.running[i]? with
      | some task =>
          let s := { s with running := s.running.eraseIdx i }
          match s.connections task.fd with
          | some _ =>
              some
                { s with
                  sending := s.sending ++ [⟨task, handleRpcRequest handlers task.message⟩] }
          | none => some s
      | none => none
  | .send i =>
      -- `sendResponse` behind its lookup: the kernel knows only the number
      match s.sending[i]? with
      | some write =>
          let s := { s with sending := s.sending.eraseIdx i }
          match s.descriptors write.task.fd with
          | some id =>
              some { s with written := Function.update s.written id (s.written id ++ [write]) }
          | none => some s
      | none => none
  | .clientReceive conn =>
      -- `callEndpoint` takes the first frame its connection has not read yet
      match (s.written conn)[s.read conn]? with
      | some write =>
          some
            { s with
              read := Function.update s.read conn (s.read conn + 1)
              returned :=
                (conn, write, RpcClient.readResponse (TcpConnection.transmit write.data)) ::
                  s.returned }
      | none => none

/-- The server with its handlers, from its start. -/
def system (handlers : Handlers) : System State Action where
  init := {}
  step := step handlers

/-- What is written to a connection was computed for a request that arrived on it, and so
was what its client's calls return. -/
def ResponsesStayHome (S : System State Action) : Prop :=
  ∀ (as : List Action) (s : State), S.exec S.init as = some s →
    (∀ conn, ∀ write ∈ s.written conn, write.task.origin = conn) ∧
      ∀ call ∈ s.returned, call.2.1.task.origin = call.1

/-- The kernel hands out no number that a pending request holds, whoever asks for one. -/
def FdUnclaimed (s : State) : Action → Prop
  | .accept fd | .openOther fd => ∀ task ∈ s.pending, task.fd ≠ fd
  | _ => True

instance (s : State) (a : Action) : Decidable (FdUnclaimed s a) := by
  cases a <;> simp only [FdUnclaimed] <;> infer_instance

/-! ### The invariant -/

/-- What holds while no number is handed out too early. -/
structure Invariant (s : State) : Prop where
  /-- The map and the kernel agree on the connections in the map. -/
  connections : ∀ fd conn, s.connections fd = some conn → s.descriptors fd = some conn.id
  /-- The number between the kernel's table and the map is in the one and not in the other. -/
  loop : ∀ fd, s.loop = .accepted fd ∨ s.loop = .erased fd → s.connections fd = none
  /-- A descriptor that a pending request holds is closed or still the request's own. -/
  pending : ∀ task ∈ s.pending, ∀ id, s.descriptors task.fd = some id → id = task.origin
  written : ∀ conn, ∀ write ∈ s.written conn, write.task.origin = conn
  returned : ∀ call ∈ s.returned, call.2.1.task.origin = call.1

theorem invariant_init : Invariant {} where
  connections := by simp
  loop := by simp
  pending := by simp [State.pending]
  written := by simp
  returned := by simp

theorem mem_pending {s : State} {task : Task} :
    task ∈ s.pending ↔
      task ∈ s.queued ∨ task ∈ s.running ∨ ∃ write ∈ s.sending, write.task = task := by
  simp [State.pending]

section Steps

variable {handlers : Handlers} {s t : State}

/-- A number that was not open is handed out. -/
theorem Invariant.opened (h : Invariant s) {fd : ℕ} (hfree : s.descriptors fd = none)
    (hfd : ∀ task ∈ s.pending, task.fd ≠ fd) :
    s.connections fd = none ∧
      Invariant
        { s with
          descriptors := Function.update s.descriptors fd (some s.accepted)
          accepted := s.accepted + 1 } := by
  have hnone : s.connections fd = none := by
    by_contra hsome
    obtain ⟨conn, hconn⟩ := Option.ne_none_iff_exists'.mp hsome
    rw [h.connections fd conn hconn] at hfree
    exact Option.some_ne_none _ hfree
  refine ⟨hnone, fun fd' conn hconn => ?_, h.loop, fun task htask id hid => ?_, h.written,
    h.returned⟩
  · have hother : fd' ≠ fd := by
      rintro rfl
      exact Option.some_ne_none _ (hconn.symm.trans hnone)
    simpa [Function.update_of_ne hother] using h.connections fd' conn hconn
  · simp only [Function.update_of_ne (hfd task htask)] at hid
    exact h.pending task htask id hid

/-- Where the event loop goes next, with a number that is not in the map. -/
theorem Invariant.goesTo (h : Invariant s) {loop : Loop}
    (hloop : ∀ fd, loop = .accepted fd ∨ loop = .erased fd → s.connections fd = none) :
    Invariant { s with loop := loop } :=
  ⟨h.connections, hloop, h.pending, h.written, h.returned⟩

theorem Invariant.accept (h : Invariant s) {fd : ℕ} (hfd : FdUnclaimed s (.accept fd))
    (hstep : step handlers s (.accept fd) = some t) : Invariant t := by
  simp only [step, Option.ite_none_right_eq_some, Option.some.injEq] at hstep
  obtain ⟨⟨hready, hfree⟩, rfl⟩ := hstep
  obtain ⟨hnone, hopened⟩ := h.opened hfree hfd
  refine hopened.goesTo fun fd' hloop => ?_
  simp only [Loop.accepted.injEq, reduceCtorEq, or_false] at hloop
  exact hloop ▸ hnone

theorem Invariant.openOther (h : Invariant s) {fd : ℕ} (hfd : FdUnclaimed s (.openOther fd))
    (hstep : step handlers s (.openOther fd) = some t) : Invariant t := by
  simp only [step, Option.ite_none_right_eq_some, Option.some.injEq] at hstep
  obtain ⟨hfree, rfl⟩ := hstep
  exact (h.opened hfree hfd).2

theorem Invariant.install (h : Invariant s) (hstep : step handlers s .install = some t) :
    Invariant t := by
  cases hloop : s.loop with
  | ready => simp [step, hloop] at hstep
  | erased fd => simp [step, hloop] at hstep
  | accepted fd =>
    simp only [step, hloop, Option.map_eq_some_iff] at hstep
    obtain ⟨id, hid, rfl⟩ := hstep
    refine ⟨fun fd' conn hconn => ?_, by simp, h.pending, h.written, h.returned⟩
    by_cases hfd : fd' = fd
    · subst hfd
      simp only [Function.update_self, Option.some.injEq] at hconn
      rw [← hconn]
      exact hid
    · simp only [Function.update_of_ne hfd] at hconn
      exact h.connections fd' conn hconn

/-- Closing a descriptor that is not in the map. -/
theorem Invariant.closed (h : Invariant s) {fd : ℕ} (hfd : s.connections fd = none) :
    Invariant { s with descriptors := Function.update s.descriptors fd none } := by
  refine ⟨fun fd' conn hconn => ?_, h.loop, fun task htask id hid => ?_, h.written, h.returned⟩
  · have hother : fd' ≠ fd := by
      rintro rfl
      have hnone : s.connections fd' = some conn := hconn
      rw [hfd] at hnone
      simp at hnone
    simpa [Function.update_of_ne hother] using h.connections fd' conn hconn
  · by_cases hsame : task.fd = fd
    · simp [hsame] at hid
    · simp only [Function.update_of_ne hsame] at hid
      exact h.pending task htask id hid

theorem Invariant.reject (h : Invariant s) (hstep : step handlers s .reject = some t) :
    Invariant t := by
  cases hloop : s.loop with
  | ready => simp [step, hloop] at hstep
  | erased fd => simp [step, hloop] at hstep
  | accepted fd =>
    simp only [step, hloop, Option.some.injEq] at hstep
    subst hstep
    exact (h.closed (h.loop fd (Or.inl hloop))).goesTo (by simp)

theorem Invariant.close (h : Invariant s) (hstep : step handlers s .close = some t) :
    Invariant t := by
  cases hloop : s.loop with
  | ready => simp [step, hloop] at hstep
  | accepted fd => simp [step, hloop] at hstep
  | erased fd =>
    simp only [step, hloop, Option.some.injEq] at hstep
    subst hstep
    exact (h.closed (h.loop fd (Or.inr hloop))).goesTo (by simp)

theorem Invariant.closeOther (h : Invariant s) {fd : ℕ}
    (hstep : step handlers s (.closeOther fd) = some t) : Invariant t := by
  simp only [step, Option.ite_none_right_eq_some, Option.some.injEq] at hstep
  obtain ⟨⟨hnone, -, -⟩, rfl⟩ := hstep
  exact h.closed hnone

theorem Invariant.erase (h : Invariant s) {fd : ℕ}
    (hstep : step handlers s (.erase fd) = some t) : Invariant t := by
  cases hloop : s.loop with
  | accepted fd' => simp [step, hloop] at hstep
  | erased fd' => simp [step, hloop] at hstep
  | ready =>
    cases hconn : s.connections fd with
    | none => simp [step, hloop, hconn] at hstep
    | some conn =>
      simp only [step, hloop, hconn, Option.some.injEq] at hstep
      subst hstep
      refine ⟨fun fd' conn' hconn' => ?_, fun fd' hfd' => ?_, h.pending, h.written, h.returned⟩
      · by_cases hsame : fd' = fd
        · simp [hsame] at hconn'
        · simp only [Function.update_of_ne hsame] at hconn'
          exact h.connections fd' conn' hconn'
      · simp only [reduceCtorEq, Loop.erased.injEq, false_or] at hfd'
        simp [hfd']

/-- The requests read from a descriptor arrived on the connection the kernel has it for. -/
theorem Invariant.receive (h : Invariant s) {fd : ℕ} {chunk : Bytes}
    (hstep : step handlers s (.receive fd chunk) = some t) : Invariant t := by
  cases hloop : s.loop with
  | accepted fd' => simp [step, hloop] at hstep
  | erased fd' => simp [step, hloop] at hstep
  | ready =>
    cases hconn : s.connections fd with
    | none => simp [step, hloop, hconn] at hstep
    | some conn =>
      have hid := h.connections fd conn hconn
      simp only [step, hloop, hconn, hid, Option.ite_none_left_eq_some, Option.some.injEq] at hstep
      obtain ⟨-, rfl⟩ := hstep
      refine ⟨fun fd' conn' hconn' => ?_, by simp, fun task htask id hdesc => ?_, h.written,
        h.returned⟩
      · by_cases hsame : fd' = fd
        · subst hsame
          simp only [Function.update_self, Option.some.injEq] at hconn'
          rw [← hconn']
          exact hid
        · simp only [Function.update_of_ne hsame] at hconn'
          exact h.connections fd' conn' hconn'
      · rw [mem_pending] at htask
        simp only [List.mem_append, List.mem_map] at htask
        rcases htask with (hq | ⟨message, -, rfl⟩) | hr | hw
        · exact h.pending task (mem_pending.mpr (Or.inl hq)) id hdesc
        · rw [hid, Option.some.injEq] at hdesc
          exact hdesc.symm
        · exact h.pending task (mem_pending.mpr (Or.inr (Or.inl hr))) id hdesc
        · exact h.pending task (mem_pending.mpr (Or.inr (Or.inr hw))) id hdesc

/-- The workers move tasks on without adding any. -/
theorem Invariant.of_pending_subset (h : Invariant s) {queued running : List Task}
    {sending : List Write}
    (hsub : ∀ task, task ∈ queued ∨ task ∈ running ∨ (∃ write ∈ sending, write.task = task) →
      task ∈ s.pending) :
    Invariant { s with queued := queued, running := running, sending := sending } :=
  ⟨h.connections, h.loop, fun task htask => h.pending task (hsub task (mem_pending.mp htask)),
    h.written, h.returned⟩

theorem Invariant.dequeue (h : Invariant s) (hstep : step handlers s .dequeue = some t) :
    Invariant t := by
  cases hqueued : s.queued with
  | nil => simp [step, hqueued] at hstep
  | cons task rest =>
    simp only [step, hqueued, Option.some.injEq] at hstep
    subst hstep
    refine h.of_pending_subset fun task' htask => mem_pending.mpr ?_
    simp only [hqueued, List.mem_cons, List.mem_append, List.not_mem_nil, or_false] at htask ⊢
    tauto

theorem Invariant.complete (h : Invariant s) {i : ℕ}
    (hstep : step handlers s (.complete i) = some t) : Invariant t := by
  cases hrun : s.running[i]? with
  | none => simp [step, hrun] at hstep
  | some task =>
    have hmem : task ∈ s.running := List.mem_of_getElem? hrun
    have hdrop : ∀ task', task' ∈ s.running.eraseIdx i → task' ∈ s.running :=
      fun _ h => List.mem_of_mem_eraseIdx h
    cases hconn : s.connections task.fd with
    | none =>
      simp only [step, hrun, hconn, Option.some.injEq] at hstep
      subst hstep
      refine h.of_pending_subset fun task' htask => mem_pending.mpr ?_
      rcases htask with hq | hr | hw
      · exact Or.inl hq
      · exact Or.inr (Or.inl (hdrop task' hr))
      · exact Or.inr (Or.inr hw)
    | some conn =>
      simp only [step, hrun, hconn, Option.some.injEq] at hstep
      subst hstep
      refine h.of_pending_subset fun task' htask => mem_pending.mpr ?_
      simp only [List.mem_append, List.mem_singleton] at htask
      rcases htask with hq | hr | ⟨write, hw | rfl, rfl⟩
      · exact Or.inl hq
      · exact Or.inr (Or.inl (hdrop task' hr))
      · exact Or.inr (Or.inr ⟨write, hw, rfl⟩)
      · exact Or.inr (Or.inl hmem)

theorem Invariant.send (h : Invariant s) {i : ℕ} (hstep : step handlers s (.send i) = some t) :
    Invariant t := by
  cases hsend : s.sending[i]? with
  | none => simp [step, hsend] at hstep
  | some write =>
    have hmem : write ∈ s.sending := List.mem_of_getElem? hsend
    have hrest : Invariant { s with sending := s.sending.eraseIdx i } := by
      refine h.of_pending_subset fun task htask => mem_pending.mpr ?_
      rcases htask with hq | hr | ⟨w, hw, rfl⟩
      · exact Or.inl hq
      · exact Or.inr (Or.inl hr)
      · exact Or.inr (Or.inr ⟨w, List.mem_of_mem_eraseIdx hw, rfl⟩)
    cases hdesc : s.descriptors write.task.fd with
    | none =>
      simp only [step, hsend, hdesc, Option.some.injEq] at hstep
      subst hstep
      exact hrest
    | some id =>
      simp only [step, hsend, hdesc, Option.some.injEq] at hstep
      subst hstep
      -- the descriptor is open, so it is the request's own
      have horigin := h.pending write.task (mem_pending.mpr (Or.inr (Or.inr ⟨write, hmem, rfl⟩)))
        id hdesc
      refine ⟨hrest.connections, hrest.loop, hrest.pending, fun conn w hw => ?_, h.returned⟩
      by_cases hconn : conn = id
      · subst hconn
        simp only [Function.update_self, List.mem_append, List.mem_singleton] at hw
        rcases hw with hw | rfl
        · exact h.written conn w hw
        · exact horigin.symm
      · simp only [Function.update_of_ne hconn] at hw
        exact h.written conn w hw

theorem Invariant.clientReceive (h : Invariant s) {conn : ℕ}
    (hstep : step handlers s (.clientReceive conn) = some t) : Invariant t := by
  cases hread : (s.written conn)[s.read conn]? with
  | none => simp [step, hread] at hstep
  | some write =>
    simp only [step, hread, Option.some.injEq] at hstep
    subst hstep
    refine ⟨h.connections, h.loop, h.pending, h.written, fun call hcall => ?_⟩
    rcases List.mem_cons.mp hcall with rfl | hcall
    · exact h.written conn write (List.mem_of_getElem? hread)
    · exact h.returned call hcall

/-- Every step that hands out no claimed number keeps the invariant. -/
theorem Invariant.step (h : Invariant s) {a : Action} (hguard : FdUnclaimed s a)
    (hstep : EpollServer.step handlers s a = some t) : Invariant t := by
  cases a with
  | accept fd => exact h.accept hguard hstep
  | install => exact h.install hstep
  | reject => exact h.reject hstep
  | receive fd chunk => exact h.receive hstep
  | erase fd => exact h.erase hstep
  | close => exact h.close hstep
  | openOther fd => exact h.openOther hguard hstep
  | closeOther fd => exact h.closeOther hstep
  | dequeue => exact h.dequeue hstep
  | complete i => exact h.complete hstep
  | send i => exact h.send hstep
  | clientReceive conn => exact h.clientReceive hstep

end Steps

/-- **Responses reach only their own caller** in every run in which no descriptor is opened
under a number that a pending request holds. -/
theorem responsesStayHome (handlers : Handlers) :
    ResponsesStayHome ((system handlers).restrict FdUnclaimed) := by
  intro as s hrun
  have hinv : Invariant s := by
    refine System.reachable_invariant (S := (system handlers).restrict FdUnclaimed)
      invariant_init (fun u a t hu hstep => ?_) hrun
    obtain ⟨hguard, hstep⟩ := System.step_restrict.mp hstep
    exact hu.step hguard hstep
  exact ⟨hinv.written, hinv.returned⟩

/-! ### Two clients under one number -/

/-- One method, which returns its argument. -/
def echoHandlers : Handlers := fun key =>
  if key = utf8 "Echo.echo" then some fun data => .ok data else none

/-- The bytes of a call of that method. -/
def echoRequest (data : Bytes) : Bytes :=
  Rpc.RpcRequest.codec.encode
    { serviceName := utf8 "Echo", methodName := utf8 "echo", requestData := data,
      requestId := utf8 "1" }

/-- The first client sends a request, gets its response and disconnects; the server connects to
the registry for a while, under the number; then the second client is given it, and calls. -/
def reuse : List Action :=
  [.accept 7, .install, .receive 7 (TcpConnection.frame (echoRequest (utf8 "first"))), .dequeue,
    .complete 0, .send 0, .clientReceive 0, .erase 7, .close, .openOther 7, .closeOther 7,
    .accept 7, .install, .receive 7 (TcpConnection.frame (echoRequest (utf8 "second"))),
    .dequeue, .complete 0, .send 0, .clientReceive 2]

theorem responsesStayHome_sample :
    ∃ s, ((system echoHandlers).restrict FdUnclaimed).exec (system echoHandlers).init reuse =
        some s ∧
      (s.returned.map fun call => (call.1, call.2.2.toOption)) =
        [(2, some (utf8 "second")), (0, some (utf8 "first"))] ∧
      ∀ call ∈ s.returned, call.2.1.task.origin = call.1 := by
  obtain ⟨s, hs, hreturned⟩ := ((system echoHandlers).restrict FdUnclaimed).exists_exec_of_any
    (system echoHandlers).init reuse
    (fun s => decide ((s.returned.map fun call => (call.1, call.2.2.toOption)) =
      [(2, some (utf8 "second")), (0, some (utf8 "first"))])) (by decide +kernel)
  exact ⟨s, hs, of_decide_eq_true hreturned, (responsesStayHome echoHandlers reuse s hs).2⟩

/-- The first client sends a request and disconnects, the second connects and is given
the number, and then a worker takes the request up. -/
def leak : List Action :=
  [.accept 7, .install, .receive 7 (TcpConnection.frame (echoRequest (utf8 "secret"))), .erase 7,
    .close, .accept 7, .install, .dequeue, .complete 0, .send 0, .clientReceive 1]

/-- The second client's call returns what was computed for the first client's request. -/
theorem exec_leak :
    (((system echoHandlers).exec {} leak).map fun s =>
        s.returned.map fun call => (call.1, call.2.1.task.origin, call.2.2.toOption)) =
      some [(1, 0, some (utf8 "secret"))] := by
  decide +kernel

theorem sample_leak : ¬ ResponsesStayHome (system echoHandlers) := by
  intro h
  obtain ⟨s, hs, hreturned⟩ := Option.map_eq_some_iff.mp exec_leak
  have hhome := (h leak s hs).2
  obtain ⟨call, hcall, heq⟩ := List.map_eq_singleton_iff.mp hreturned
  simp only [Prod.mk.injEq] at heq
  have horigin := hhome call (by simp [hcall])
  omega

end EpollServer
