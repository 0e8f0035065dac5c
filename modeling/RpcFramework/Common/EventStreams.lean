import Mathlib.Algebra.BigOperators.Group.Finset.Basic
import RpcFramework.Common.EventLoop

/-!
# The streams of the connections

Every connection has a client that writes what it likes when it likes.  `recv` returns, on the
descriptor of a connection, the next bytes its client has written; the event loop turns from one
connection to another, accepts and closes, and the kernel gives the numbers of closed
descriptors out again.  What the thread pool is given for a connection is nevertheless what is
in the stream of that connection, and nothing else.

## Main definitions

* `EventLoop.Record` — what the clients have written, what of it was received, and what the
  thread pool was given for it.
* `EventLoop.Traffic` — the states of the system `traffic`, the loop together with its clients.
* `EventLoop.Streams` — the invariant: each buffer is what is left of the stream.

## Main results

* `EventLoop.handleClientData_more` — a stream may be taken up again anywhere.
* `EventLoop.Streams.step` — the invariant is kept by every step.
* `EventLoop.traffic_messages` — **each connection's messages, in order, once.**
* `EventLoop.traffic_counted` — **what the counters say.**
-/

namespace EventLoop

/-- Each by the number of a connection.  No step of the loop reads this. -/
structure Record where
  written : ℕ → Bytes := fun _ => []
  received : ℕ → Bytes := fun _ => []
  /-- What the thread pool was given, each with the number of the connection it came from. -/
  handed : List (ℕ × ℕ × Bytes) := []

/-- The messages the thread pool was given for a connection. -/
def Record.messages (r : Record) (id : ℕ) : List Bytes :=
  (r.handed.filter fun p => p.1 = id).map fun p => p.2.2

structure Traffic where
  loop : State
  record : Record := {}

inductive Move where
  | loop (a : Action)
  | write (id : ℕ) (data : Bytes)

/-- The connection that is read from when the event is handled, if any. -/
def reader (s : State) (e : Event) : Option ClientConnection :=
  if s.listenFd = some e.fd ∨ e.readable = false then none
  else (s.connections.lookup e.fd).filter fun conn => conn.closed = false

/-- What is received, and handed on, on a connection. -/
def Record.read (r : Record) (id : ℕ) (data : Bytes) (tasks : List (ℕ × Bytes)) : Record where
  written := r.written
  received := Function.update r.received id (r.received id ++ data)
  handed := r.handed ++ tasks.map fun task => (id, task)

/-- One step; `recv` returns what the client of the connection has written. -/
def Traffic.step (config : Config) (s : Traffic) : Move → Option Traffic
  | .loop (.event e) =>
      (EventLoop.step config s.loop (.event e)).bind fun loop =>
        match reader s.loop e with
        | none => some { s with loop := loop }
        | some conn =>
            if s.record.received conn.id ++ e.chunks.flatten <+: s.record.written conn.id then
              some
                { loop := loop
                  record := s.record.read conn.id e.chunks.flatten
                    (loop.tasks.drop s.loop.tasks.length) }
            else none
  | .loop .stop => some { s with loop := stop s.loop }
  | .write id data =>
      some
        { s with
          record :=
            { s.record with
              written := Function.update s.record.written id (s.record.written id ++ data) } }

/-- The event loop and its clients. -/
def traffic (config : Config) (listenFd epollFd : ℕ) : System Traffic Move where
  init := { loop := (eventLoop config listenFd epollFd).init }
  step := Traffic.step config

/-! ### A stream is taken up again -/

/-- What is in the buffer is all that has to be kept of a stream. -/
theorem handleClientData_more (stream : Bytes) {chunks : List Bytes}
    (h : ∀ chunk ∈ chunks, chunk ≠ []) :
    EpollServer.extractMessages (stream ++ chunks.flatten) =
      ((EpollServer.extractMessages stream).1 ++
          (EpollServer.handleClientData (EpollServer.extractMessages stream).2 chunks).1,
        (EpollServer.handleClientData (EpollServer.extractMessages stream).2 chunks).2) := by
  rw [EpollServer.handleClientData_eq_feed h, EpollServer.extractMessages_eq_drain,
    EpollServer.extractMessages_eq_drain, StreamDecoder.drain_append,
    StreamDecoder.feed_eq_drain _ (StreamDecoder.next_leftover _ _)]

/-- The messages of a part of a stream of frames are the first of those framed. -/
theorem messages_prefix_frames {stream : Bytes} {payloads : List Bytes}
    (hpayloads : ∀ payload ∈ payloads, payload.length < 2 ^ 32)
    (h : stream <+: payloads.flatMap TcpConnection.frame) :
    (EpollServer.extractMessages stream).1 <+: payloads := by
  obtain ⟨rest, hrest⟩ := h
  have hall : EpollServer.messageDecoder.drain (stream ++ rest) = (payloads, []) := by
    rw [hrest]
    exact StreamDecoder.drain_flatMap _ rfl fun payload hmem =>
      EpollServer.extractMessage_frame (hpayloads payload hmem)
  rw [StreamDecoder.drain_append] at hall
  rw [EpollServer.extractMessages_eq_drain]
  exact ⟨_, congrArg Prod.fst hall⟩

/-- All of the stream gives all messages. -/
theorem messages_frames {payloads : List Bytes}
    (hpayloads : ∀ payload ∈ payloads, payload.length < 2 ^ 32) :
    (EpollServer.extractMessages (payloads.flatMap TcpConnection.frame)).1 = payloads := by
  rw [EpollServer.extractMessages_eq_drain, StreamDecoder.drain_flatMap _ rfl fun payload hmem =>
    EpollServer.extractMessage_frame (hpayloads payload hmem)]

/-! ### The invariant -/

/-- Each buffer is what is left of the stream of its connection, and what was handed on for a
connection is what was in front of that. -/
structure Streams (s : State) (r : Record) : Prop where
  descriptors : ∀ fd ∈ s.connections, fd ∈ s.descriptors
  connection : ∀ fd conn, s.connections.lookup fd = some conn → conn.id < s.installed ∧
    conn.closed = false ∧ conn.receiveBuffer = (EpollServer.extractMessages (r.received conn.id)).2
  unique : ∀ fd fd' conn conn', s.connections.lookup fd = some conn →
    s.connections.lookup fd' = some conn' → conn.id = conn'.id → fd = fd'
  messages : ∀ id, r.messages id = (EpollServer.extractMessages (r.received id)).1
  fresh : ∀ id, s.installed ≤ id → r.received id = []
  received : ∀ id, r.received id <+: r.written id
  tasks : s.tasks = r.handed.map Prod.snd
  requests : s.totalRequests = UInt64.ofNat r.handed.length
  bytes : s.bytesReceived =
    UInt64.ofNat (∑ id ∈ Finset.range s.installed, (r.received id).length)

section Streams

variable {config : Config} {s t : State} {r : Record}

theorem received_read_self (r : Record) (id : ℕ) (data : Bytes) (tasks : List (ℕ × Bytes)) :
    (r.read id data tasks).received id = r.received id ++ data :=
  Function.update_self _ _ _

theorem received_read_of_ne {id id' : ℕ} (h : id' ≠ id) (r : Record) (data : Bytes)
    (tasks : List (ℕ × Bytes)) : (r.read id data tasks).received id' = r.received id' :=
  Function.update_of_ne h _ _

theorem messages_read (r : Record) (id : ℕ) (data : Bytes) (fd : ℕ) (messages : List Bytes)
    (id' : ℕ) :
    (r.read id data (messages.map fun message => (fd, message))).messages id' =
      r.messages id' ++ if id = id' then messages else [] := by
  rw [Record.messages, Record.messages, Record.read, List.filter_append, List.map_append]
  congr 1
  rw [List.map_map]
  split
  · next heq =>
    rw [List.filter_eq_self.mpr (by simp [heq]), List.map_map]
    exact List.map_id _
  · next hne =>
    rw [List.filter_eq_nil_iff.mpr (by simp [hne]), List.map_nil]

/-- Nothing, or the connection goes. -/
theorem closeConnection_eq (config : Config) (s : State) (fd : ℕ) :
    closeConnection config s fd = s ∨ ∃ callbacks, closeConnection config s fd =
      { s with
        descriptors := s.descriptors.erase fd
        connections := s.connections.erase fd
        activeConnections := s.activeConnections - 1
        callbacks := callbacks } := by
  cases hconn : s.connections.lookup fd with
  | none => exact .inl (by rw [closeConnection, hconn])
  | some conn =>
    cases hclosed : conn.closed with
    | true => exact .inl (by simp only [closeConnection, hconn, hclosed, if_true])
    | false =>
      refine .inr ⟨if config.connectionCloseHandler then (fd, conn.id) :: s.callbacks
        else s.callbacks, ?_⟩
      simp only [closeConnection, hconn, hclosed, Bool.false_eq_true, if_false, close]

theorem tasks_closeConnection (s : State) (fd : ℕ) :
    (closeConnection config s fd).tasks = s.tasks := by
  rcases closeConnection_eq config s fd with hsame | ⟨callbacks, hclose⟩
  · rw [hsame]
  · rw [hclose]

/-- Behind the loop over `recv`, which found these messages and left the rest in the buffer. -/
def afterRecv (s : State) (fd : ℕ) (conn : ClientConnection) (size : ℕ)
    (messages : List Bytes) (rest : Bytes) : State :=
  { s with
    connections := s.connections.insert fd { conn with receiveBuffer := rest }
    totalRequests := s.totalRequests + UInt64.ofNat messages.length
    bytesReceived := s.bytesReceived + UInt64.ofNat size
    tasks := s.tasks ++ messages.map fun message => (fd, message) }

/-- With that, or with closing the connection, the handling of data ends. -/
theorem handleClientData_eq (hset : config.connectionHandler = true) {fd : ℕ}
    {conn : ClientConnection} (hconn : s.connections.lookup fd = some conn)
    (hclosed : conn.closed = false) {chunks messages : List Bytes} {rest : Bytes}
    (hread : EpollServer.handleClientData conn.receiveBuffer chunks = (messages, rest))
    (last : Received) :
    handleClientData config s fd chunks last =
        afterRecv s fd conn chunks.flatten.length messages rest ∨
      handleClientData config s fd chunks last =
        closeConnection config (afterRecv s fd conn chunks.flatten.length messages rest) fd := by
  rw [handleClientData, hconn]
  dsimp only
  rw [if_neg (by rw [hclosed]; exact Bool.false_ne_true), hread, if_pos hset]
  cases last with
  | wouldBlock => exact .inl rfl
  | endOfStream | failed => exact .inr rfl

/-- **A connection is closed**: the record stays. -/
theorem Streams.closeConnection (h : Streams s r) (fd : ℕ) :
    Streams (closeConnection config s fd) r := by
  rcases closeConnection_eq config s fd with hsame | ⟨callbacks, hclose⟩
  · rw [hsame]
    exact h
  have hlookup : ∀ {fd' : ℕ} {conn : ClientConnection},
      (s.connections.erase fd).lookup fd' = some conn → s.connections.lookup fd' = some conn := by
    intro fd' conn hconn
    by_cases heq : fd' = fd
    · rw [heq, AList.lookup_erase] at hconn
      cases hconn
    · rwa [AList.lookup_erase_ne heq] at hconn
  rw [hclose]
  refine ⟨fun fd' hfd' => ?_, fun fd' conn hconn => h.connection fd' conn (hlookup hconn), ?_,
    h.messages, h.fresh, h.received, h.tasks, h.requests, h.bytes⟩
  · obtain ⟨hne, hmem⟩ := AList.mem_erase.mp hfd'
    exact Finset.mem_erase.mpr ⟨hne, h.descriptors fd' hmem⟩
  · intro fd₁ fd₂ conn₁ conn₂ h₁ h₂
    exact h.unique fd₁ fd₂ conn₁ conn₂ (hlookup h₁) (hlookup h₂)

/-- **A connection is accepted**: its stream begins. -/
theorem Streams.acceptClient (h : Streams s r) {a : Accept}
    (hstep : acceptClient config s a = some t) : Streams t r := by
  obtain ⟨hfd, rfl | ⟨-, rfl⟩⟩ := acceptClient_cases hstep
  · exact h
  have hlookup : ∀ {fd : ℕ} {conn : ClientConnection},
      (s.connections.insert a.fd { id := s.installed }).lookup fd = some conn →
        fd = a.fd ∧ conn = { id := s.installed } ∨ s.connections.lookup fd = some conn := by
    intro fd conn hconn
    by_cases heq : fd = a.fd
    · subst heq
      rw [AList.lookup_insert] at hconn
      exact Or.inl ⟨rfl, (Option.some.inj hconn).symm⟩
    · rw [AList.lookup_insert_ne heq] at hconn
      exact Or.inr hconn
  have hnew := h.fresh s.installed (le_refl _)
  refine ⟨fun fd hmem => ?_, fun fd conn hconn => ?_, ?_, h.messages, fun id hid => ?_, h.received,
    h.tasks, h.requests, ?_⟩
  · rcases (AList.mem_insert _).mp hmem with rfl | hmem
    · exact Finset.mem_insert_self _ _
    · exact Finset.mem_insert_of_mem (h.descriptors fd hmem)
  · rcases hlookup hconn with ⟨-, rfl⟩ | hold
    · refine ⟨Nat.lt_succ_self _, rfl, ?_⟩
      rw [hnew]
      rfl
    · obtain ⟨hlt, hrest⟩ := h.connection fd conn hold
      exact ⟨Nat.lt_succ_of_lt hlt, hrest⟩
  · -- the number is new, as those before are smaller
    intro fd fd' conn conn' hconn hconn' hid
    rcases hlookup hconn with ⟨rfl, rfl⟩ | hold
    · rcases hlookup hconn' with ⟨rfl, -⟩ | hold'
      · rfl
      · exact absurd hid.symm (h.connection fd' conn' hold').1.ne
    · rcases hlookup hconn' with ⟨rfl, rfl⟩ | hold'
      · exact absurd hid (h.connection fd conn hold).1.ne
      · exact h.unique fd fd' conn conn' hold hold' hid
  · exact h.fresh id (le_of_lt hid)
  · show s.bytesReceived = _
    rw [h.bytes, Finset.sum_range_succ, hnew, List.length_nil, add_zero]

/-- **A connection is read from**: its stream goes on, and what is complete is handed on. -/
theorem Streams.receive (h : Streams s r) {fd : ℕ} {conn : ClientConnection}
    (hconn : s.connections.lookup fd = some conn) {chunks : List Bytes}
    (hchunks : ∀ chunk ∈ chunks, chunk ≠ [])
    (hwritten : r.received conn.id ++ chunks.flatten <+: r.written conn.id)
    {messages : List Bytes} {rest : Bytes}
    (hread : EpollServer.handleClientData conn.receiveBuffer chunks = (messages, rest)) :
    Streams (afterRecv s fd conn chunks.flatten.length messages rest)
      (r.read conn.id chunks.flatten (messages.map fun message => (fd, message))) := by
  obtain ⟨hid, hclosed, hbuffer⟩ := h.connection fd conn hconn
  have hmore := handleClientData_more (r.received conn.id) hchunks
  rw [← hbuffer, hread] at hmore
  have hlookup : ∀ {fd' : ℕ} {conn' : ClientConnection},
      (s.connections.insert fd { conn with receiveBuffer := rest }).lookup fd' = some conn' →
        fd' = fd ∧ conn' = { conn with receiveBuffer := rest } ∨
          conn'.id ≠ conn.id ∧ s.connections.lookup fd' = some conn' := by
    intro fd' conn' hconn'
    by_cases heq : fd' = fd
    · subst heq
      rw [AList.lookup_insert] at hconn'
      exact Or.inl ⟨rfl, (Option.some.inj hconn').symm⟩
    · rw [AList.lookup_insert_ne heq] at hconn'
      exact Or.inr ⟨fun hsame => heq (h.unique fd' fd conn' conn hconn' hconn hsame), hconn'⟩
  refine ⟨fun fd' hmem => ?_, fun fd' conn' hconn' => ?_, ?_, fun id => ?_, fun id hge => ?_,
    fun id => ?_, ?_, ?_, ?_⟩
  · rcases (AList.mem_insert _).mp hmem with rfl | hmem
    · exact h.descriptors fd' (AList.lookup_isSome.mp (Option.isSome_of_mem hconn))
    · exact h.descriptors fd' hmem
  · rcases hlookup hconn' with ⟨-, rfl⟩ | ⟨hne, hold⟩
    · refine ⟨hid, hclosed, ?_⟩
      rw [received_read_self, hmore]
    · rw [received_read_of_ne hne]
      exact h.connection fd' conn' hold
  · intro fd₁ fd₂ conn₁ conn₂ h₁ h₂ heq
    rcases hlookup h₁ with ⟨rfl, rfl⟩ | ⟨hne₁, hold₁⟩
    · rcases hlookup h₂ with ⟨rfl, -⟩ | ⟨hne₂, -⟩
      · rfl
      · exact absurd heq.symm hne₂
    · rcases hlookup h₂ with ⟨rfl, rfl⟩ | ⟨-, hold₂⟩
      · exact absurd heq hne₁
      · exact h.unique fd₁ fd₂ conn₁ conn₂ hold₁ hold₂ heq
  · rw [messages_read, h.messages]
    by_cases heq : conn.id = id
    · subst heq
      rw [if_pos rfl, received_read_self, hmore]
    · rw [if_neg heq, List.append_nil, received_read_of_ne (Ne.symm heq)]
  · rw [received_read_of_ne (hid.trans_le hge).ne']
    exact h.fresh id hge
  · by_cases heq : id = conn.id
    · subst heq
      rwa [received_read_self]
    · rw [received_read_of_ne heq]
      exact h.received id
  · rw [afterRecv, Record.read, List.map_append, List.map_map, h.tasks]
    exact congrArg _ (List.map_id _).symm
  · rw [afterRecv, Record.read, List.length_append, List.length_map, List.length_map, h.requests,
      UInt64.ofNat_add]
  · -- one summand grows
    have hmem : conn.id ∈ Finset.range s.installed := Finset.mem_range.mpr hid
    have hrest : ∀ tasks, ∑ id ∈ (Finset.range s.installed).erase conn.id,
          ((r.read conn.id chunks.flatten tasks).received id).length =
        ∑ id ∈ (Finset.range s.installed).erase conn.id, (r.received id).length := by
      intro tasks
      refine Finset.sum_congr rfl fun id hne => ?_
      rw [received_read_of_ne (Finset.ne_of_mem_erase hne)]
    show s.bytesReceived + _ = UInt64.ofNat (∑ id ∈ Finset.range s.installed, _)
    rw [← Finset.add_sum_erase _ _ hmem, hrest, received_read_self, List.length_append, h.bytes,
      ← Finset.add_sum_erase _ _ hmem, ← UInt64.ofNat_add]
    exact congrArg UInt64.ofNat (by omega)

/-- **An event is handled.**  If it is read from no connection the record stays; otherwise its
record goes on. -/
theorem Streams.event (h : Streams s r) (hset : config.connectionHandler = true) {e : Event}
    (hchunks : ∀ chunk ∈ e.chunks, chunk ≠ []) (hstep : handleEvent config s e = some t) :
    (reader s e = none → Streams t r) ∧
      ∀ conn, reader s e = some conn →
        r.received conn.id ++ e.chunks.flatten <+: r.written conn.id →
          Streams t (r.read conn.id e.chunks.flatten (t.tasks.drop s.tasks.length)) := by
  rw [handleEvent] at hstep
  split at hstep
  · next hlisten =>
    have hnone : reader s e = none := if_pos (Or.inl hlisten)
    refine ⟨fun _ => ?_, fun conn hsome => by simp [hnone] at hsome⟩
    split at hstep
    · exact System.exec_invariant (S := ⟨s, EventLoop.acceptClient config⟩)
        (I := fun s => Streams s r) (fun _ _ _ hs ht => hs.acceptClient ht) h hstep
    · exact Option.some.inj hstep ▸ h
  · next hlisten =>
    split at hstep
    · next hreadable =>
      obtain rfl := Option.some.inj hstep
      have hreader : reader s e =
          (s.connections.lookup e.fd).filter fun conn => conn.closed = false :=
        if_neg (by simp [hlisten, hreadable])
      cases hconn : s.connections.lookup e.fd with
      | none =>
        rw [hconn] at hreader
        refine ⟨fun _ => ?_, fun conn hsome => by simp [hreader] at hsome⟩
        rw [EventLoop.handleClientData, hconn]
        exact h
      | some conn =>
        have hclosed := (h.connection e.fd conn hconn).2.1
        rw [hconn, Option.filter_some, if_pos (decide_eq_true hclosed)] at hreader
        refine ⟨fun hnone => by simp [hreader] at hnone, fun conn' hsome hwritten => ?_⟩
        obtain rfl := Option.some.inj (hreader.symm.trans hsome)
        have hstream := h.receive hconn hchunks hwritten rfl
        have htasks : ∀ l : List (ℕ × Bytes), (s.tasks ++ l).drop s.tasks.length = l :=
          fun l => List.drop_left
        rcases handleClientData_eq hset hconn hclosed rfl e.last with heq | heq
        · rw [heq, afterRecv, htasks]
          exact hstream
        · rw [heq, tasks_closeConnection, afterRecv, htasks]
          exact hstream.closeConnection e.fd
    · next hreadable =>
      have hnone : reader s e = none := if_pos (Or.inr (by simpa using hreadable))
      refine ⟨fun _ => ?_, fun conn hsome => by simp [hnone] at hsome⟩
      split at hstep
      · exact Option.some.inj hstep ▸ h
      · split at hstep
        · exact Option.some.inj hstep ▸ h.closeConnection _
        · exact Option.some.inj hstep ▸ h

theorem Streams.stop (h : Streams s r) : Streams (stop s) r := by
  cases hrunning : s.running with
  | false =>
    rw [stop_of_stopped hrunning]
    exact h
  | true =>
    rw [EventLoop.stop, if_pos hrunning]
    exact ⟨fun fd hmem => absurd hmem (AList.notMem_empty fd),
      fun _ _ hconn => by simp at hconn, fun _ _ _ _ hconn => by simp at hconn, h.messages, h.fresh,
      h.received, h.tasks, h.requests, h.bytes⟩

/-- A client goes on writing. -/
theorem Streams.write (h : Streams s r) (id : ℕ) (data : Bytes) :
    Streams s { r with written := Function.update r.written id (r.written id ++ data) } := by
  refine ⟨h.descriptors, h.connection, h.unique, h.messages, h.fresh, fun id' => ?_, h.tasks,
    h.requests, h.bytes⟩
  show r.received id' <+: Function.update r.written id (r.written id ++ data) id'
  by_cases heq : id' = id
  · subst heq
    rw [Function.update_self]
    exact (h.received id').trans (List.prefix_append _ _)
  · rw [Function.update_of_ne heq]
    exact h.received id'

/-- **Every step keeps this.** -/
theorem Streams.step {s t : Traffic} (h : Streams s.loop s.record)
    (hset : config.connectionHandler = true) {m : Move} (hstep : Traffic.step config s m = some t) :
    Streams t.loop t.record := by
  match m, hstep with
  | .loop (.event e), hstep =>
    obtain ⟨loop, hloop, hstep⟩ := Option.bind_eq_some_iff.mp hstep
    obtain ⟨⟨-, hchunks⟩, hevent⟩ := Option.ite_none_right_eq_some.mp hloop
    obtain ⟨hnone, hsome⟩ := h.event hset hchunks hevent
    cases hreader : reader s.loop e with
    | none =>
      rw [hreader] at hstep
      obtain rfl := Option.some.inj hstep
      exact hnone hreader
    | some conn =>
      rw [hreader] at hstep
      obtain ⟨hwritten, heq⟩ := Option.ite_none_right_eq_some.mp hstep
      obtain rfl := Option.some.inj heq
      exact hsome conn hreader hwritten
  | .loop .stop, hstep =>
    obtain rfl := Option.some.inj hstep
    exact h.stop
  | .write id data, hstep =>
    obtain rfl := Option.some.inj hstep
    exact h.write id data

theorem streams_init (config : Config) (listenFd epollFd : ℕ) :
    Streams (traffic config listenFd epollFd).init.loop
      (traffic config listenFd epollFd).init.record where
  descriptors fd hmem := absurd hmem (AList.notMem_empty fd)
  connection _ _ hconn := by simp [traffic, eventLoop] at hconn
  unique _ _ _ _ hconn := by simp [traffic, eventLoop] at hconn
  messages _ := rfl
  fresh _ _ := rfl
  received _ := List.prefix_rfl
  tasks := rfl
  requests := rfl
  bytes := rfl

theorem streams_exec (hset : config.connectionHandler = true) {listenFd epollFd : ℕ}
    {ms : List Move} {t : Traffic}
    (h : (traffic config listenFd epollFd).exec (traffic config listenFd epollFd).init ms =
      some t) : Streams t.loop t.record :=
  System.reachable_invariant (I := fun s : Traffic => Streams s.loop s.record)
    (streams_init config listenFd epollFd) (fun _ _ _ hs hstep => hs.step hset hstep) h

end Streams

/-- **Each connection's messages, in order, once**: whatever the other connections do, and whatever
number the descriptor had before, what the thread pool is given for a connection are the
messages at the front of what was received on it, which is the beginning of what its client has
written; of a client that writes frames the first payloads, and all when all was received. -/
theorem traffic_messages {config : Config} (hset : config.connectionHandler = true)
    (listenFd epollFd : ℕ) : ∀ (ms : List Move) (t : Traffic),
    (traffic config listenFd epollFd).exec (traffic config listenFd epollFd).init ms = some t →
      t.loop.tasks = t.record.handed.map Prod.snd ∧
        ∀ id, t.record.received id <+: t.record.written id ∧
          t.record.messages id = (EpollServer.extractMessages (t.record.received id)).1 ∧
          ∀ payloads : List Bytes, (∀ payload ∈ payloads, payload.length < 2 ^ 32) →
            (t.record.written id <+: payloads.flatMap TcpConnection.frame →
              t.record.messages id <+: payloads) ∧
            (t.record.received id = payloads.flatMap TcpConnection.frame →
              t.record.messages id = payloads) := by
  intro ms t h
  have ht := streams_exec hset h
  refine ⟨ht.tasks, fun id => ⟨ht.received id, ht.messages id, fun payloads hpayloads =>
    ⟨fun hwritten => ?_, fun hall => ?_⟩⟩⟩
  · rw [ht.messages]
    exact messages_prefix_frames hpayloads ((ht.received id).trans hwritten)
  · rw [ht.messages, hall]
    exact messages_frames hpayloads

/-- **What the counters say**, in every state: `total_requests_` is how many messages the thread
pool was given, and `bytes_received_` how much was received on all connections there were. -/
theorem traffic_counted {config : Config} (hset : config.connectionHandler = true)
    (listenFd epollFd : ℕ) : ∀ (ms : List Move) (t : Traffic),
    (traffic config listenFd epollFd).exec (traffic config listenFd epollFd).init ms = some t →
      t.loop.totalRequests = UInt64.ofNat t.loop.tasks.length ∧
        t.loop.bytesReceived =
          UInt64.ofNat (∑ id ∈ Finset.range t.loop.installed, (t.record.received id).length) := by
  intro ms t h
  have ht := streams_exec hset h
  refine ⟨?_, ht.bytes⟩
  rw [ht.requests, ht.tasks, List.length_map]

/-- A client writes a frame and half of another, and goes; the next connection has the number of
its descriptor, and a client that writes a frame of its own. -/
def sampleTraffic : List Move :=
  [.loop (.event { fd := 3, accepts := [{ fd := 5 }] }), .write 0 [0, 0, 0, 1, 7, 0, 0],
    .loop (.event { fd := 5, chunks := [[0, 0], [0, 1, 7, 0]], last := .endOfStream }),
    .loop (.event { fd := 3, accepts := [{ fd := 5 }] }), .write 1 [0, 0, 0, 1, 8],
    .loop (.event { fd := 5, chunks := [[0, 0, 0, 1, 8]] })]

theorem traffic_messages_sample : ∃ t,
    (traffic {} 3 4).exec (traffic {} 3 4).init sampleTraffic = some t ∧
      t.loop.tasks = [(5, [7]), (5, [8])] ∧ t.record.messages 1 = [[8]] := by
  obtain ⟨t, ht, htest⟩ := (traffic {} 3 4).exists_exec_of_any (traffic {} 3 4).init sampleTraffic
    (fun t => decide (t.loop.tasks = [(5, [7]), (5, [8])] ∧
      t.record.received 1 = [0, 0, 0, 1, 8])) (by decide +kernel)
  obtain ⟨htasks, hreceived⟩ := of_decide_eq_true htest
  obtain ⟨-, hall⟩ := ((traffic_messages rfl 3 4 _ t ht).2 1).2.2 [[8]] (by decide)
  exact ⟨t, ht, htasks, hall hreceived⟩

theorem traffic_counted_sample : ∃ t,
    (traffic {} 3 4).exec (traffic {} 3 4).init sampleTraffic = some t ∧
      t.loop.installed = 2 ∧ t.loop.totalRequests = UInt64.ofNat t.loop.tasks.length ∧
        t.loop.bytesReceived =
          UInt64.ofNat (∑ id ∈ Finset.range t.loop.installed, (t.record.received id).length) := by
  obtain ⟨t, ht, htest⟩ := (traffic {} 3 4).exists_exec_of_any (traffic {} 3 4).init sampleTraffic
    (fun t => decide (t.loop.installed = 2)) (by decide +kernel)
  exact ⟨t, ht, of_decide_eq_true htest, traffic_counted rfl 3 4 _ t ht⟩

end EventLoop
